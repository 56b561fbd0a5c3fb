import LuaSkills.Embedded.Operations.State

/-!
# Accounts of the operation registry

`Books` are the accounts of one registry: records and reserved capacity stay under the limit, identities
are issued in order and once, publications are numbered in order, and every record was published under
its identity. `Inv` adds the reservations: the reserved capacity of a registry is the number of its
unconsumed reservations, and each of these holds an identity of its own that was issued and not yet
published, with a context that the registry has already accepted.
-/

namespace LuaSkills.Embedded

open AList Function List Except Nat

namespace OperationRegistry

def Mine (g : ℕ) (r : OperationReservation) : Bool := r.state = g ∧ r.active

structure Books (R : OperationRegistry) (s : OperationRegistryState) : Prop where
  bounded : s.records.size + s.reserved ≤ R.maxOperations
  counted : s.publicationSequence + s.reserved ≤ s.sequence
  word : s.sequence < wordBound
  issued : s.issued = (range s.sequence).map fun n => IdentityKind.operation.render R.runtimeId (n + 1)
  ordered : s.published.map Prod.fst = (range s.publicationSequence).map succ
  distinct : (s.published.map Prod.snd).Nodup
  allocated : s.published.map Prod.snd ⊆ s.issued
  records : ∀ id operation, s.records.lookup id = some operation →
    operation.id = id ∧ (operation.publicationSequence, id) ∈ s.published

structure Held (R : OperationRegistry) (s : OperationRegistryState) (r : OperationReservation) : Prop where
  unpublished : r.id ∉ s.published.map Prod.snd
  valid : r.context.validate R.runtimeId r.id = .ok ()
  fits : R.contextSize r.context ≤ R.maxEffectBytes

structure Inv (R : ℕ → OperationRegistry) (w : OperationsWorld) : Prop where
  books : ∀ g, Books (R g) (w.states g)
  reserved : ∀ g, (w.states g).reserved = w.reservations.countBy (Mine g)
  keys : ∀ k r, w.reservations.lookup k = some r → k < w.nextReservation
  issued : ∀ k r, w.reservations.lookup k = some r → r.id ∈ (w.states r.state).issued
  held : ∀ k r, w.reservations.lookup k = some r → r.active → Held (R r.state) (w.states r.state) r
  apart : ∀ k k' r r', w.reservations.lookup k = some r → w.reservations.lookup k' = some r' →
    r.state = r'.state → r.id = r'.id → k = k'

variable {R : ℕ → OperationRegistry} {Q : OperationRegistry} {w : OperationsWorld}
  {s s' : OperationRegistryState} {g k control : ℕ} {id : String} {p : OperationAdmission}
  {r owned : OperationReservation} {operation : RetainedOperation}
  {makeContext : String → EmbeddedResult OperationContext} {context : OperationContext} {sequence : ℕ}

/-! ## The checks -/

theorem prepareOrdinary_ok (h : Q.prepareOrdinary s makeContext = .ok (sequence, id, context)) :
    s.records.size < Q.maxOperations - s.reserved ∧ sequence = s.sequence + 1 ∧ sequence < wordBound ∧
      id = IdentityKind.operation.render Q.runtimeId (s.sequence + 1) := by
  simp only [prepareOrdinary, bind_eq_ok, refuseIf_eq_ok, okOr_eq_ok, checkedAdd_eq_some] at h
  obtain ⟨_, hroom, n, ⟨hlt, rfl⟩, c, -, h⟩ := h
  cases h
  exact ⟨not_le.1 hroom, rfl, hlt, rfl⟩

/-- The context fits wherever it was measured as a whole. -/
theorem contextBytes_ok (h : Q.contextSize context ≤ Q.maxEffectBytes) :
    ∃ bytes, Q.contextBytes context = .ok bytes := by
  cases context with
  | unbound => exact ⟨0, rfl⟩
  | module context =>
    refine ⟨_, bind_eq_ok.2 ⟨(), ?_, rfl⟩⟩
    exact refuseIf_eq_ok.2 (not_lt.2 h)

theorem prepareAdmission_ordinary (h : Q.prepareAdmission g s none makeContext = .ok p) :
    s.records.size < Q.maxOperations - s.reserved ∧ p.sequence = s.sequence + 1 ∧ p.sequence < wordBound ∧
      p.id = IdentityKind.operation.render Q.runtimeId (s.sequence + 1) ∧
      p.publicationSequence = s.publicationSequence + 1 := by
  simp only [prepareAdmission, bind_eq_ok, okOr_eq_ok, checkedAdd_eq_some] at h
  obtain ⟨⟨n, i, c⟩, hp, _, -, b, -, m, ⟨-, rfl⟩, h⟩ := h
  cases h
  obtain ⟨hroom, rfl, hlt, rfl⟩ := prepareOrdinary_ok hp
  exact ⟨hroom, rfl, hlt, rfl, rfl⟩

theorem prepareAdmission_reserved (h : Q.prepareAdmission g s (some owned) makeContext = .ok p) :
    owned.active ∧ owned.state = g ∧ p.sequence = s.sequence ∧ p.id = owned.id ∧
      p.publicationSequence = s.publicationSequence + 1 := by
  simp only [prepareAdmission, prepareReserved, bind_eq_ok, refuseIf_eq_ok, okOr_eq_ok,
    checkedAdd_eq_some, not_or, not_not] at h
  obtain ⟨⟨n, i, c⟩, ⟨_, ⟨ha, hg⟩, hp⟩, _, -, b, -, m, ⟨-, rfl⟩, h⟩ := h
  cases hp
  cases h
  exact ⟨ha, hg, rfl, rfl, rfl⟩

/-- A held reservation passes every check of its registry. -/
theorem Held.prepare (makeContext : String → EmbeddedResult OperationContext) (H : Held Q s owned)
    (hg : owned.state = g) (ha : owned.active) (hword : s.publicationSequence + 1 < wordBound) :
    ∃ p, Q.prepareAdmission g s (some owned) makeContext = .ok p ∧ p.id = owned.id := by
  obtain ⟨bytes, hb⟩ := contextBytes_ok H.fits
  refine ⟨⟨s.sequence, owned.id, owned.context, bytes, s.publicationSequence + 1⟩, ?_, rfl⟩
  simp only [prepareAdmission, prepareReserved, bind_eq_ok, refuseIf_eq_ok, okOr_eq_ok,
    checkedAdd_eq_some, not_or, not_not]
  exact ⟨_, ⟨(), ⟨ha, hg⟩, rfl⟩, (), H.valid, bytes, hb, _, ⟨hword, rfl⟩, rfl⟩

theorem prepareReservation_ok (h : Q.prepareReservation s makeContext = .ok (sequence, id, context)) :
    s.records.size < Q.maxOperations - s.reserved ∧ sequence = s.sequence + 1 ∧ sequence < wordBound ∧
      id = IdentityKind.operation.render Q.runtimeId (s.sequence + 1) ∧
      context.validate Q.runtimeId id = .ok () ∧ Q.contextSize context ≤ Q.maxEffectBytes := by
  simp only [prepareReservation, jsonSize, bind_eq_ok, refuseIf_eq_ok] at h
  obtain ⟨⟨n, i, c⟩, hp, _, hv, _, ⟨_, hfits, -⟩, h⟩ := h
  cases h
  obtain ⟨hroom, hn, hlt, hid⟩ := prepareOrdinary_ok hp
  exact ⟨hroom, hn, hlt, hid, hv, not_lt.1 hfits⟩

/-- What an owner publishes keeps the identity, the publication and the context of its operation. -/
theorem lookup_evolve (h : (evolve s id snapshot).records.lookup i = some operation) :
    ∃ operation₀, s.records.lookup i = some operation₀ ∧ operation.id = operation₀.id ∧
      operation.publicationSequence = operation₀.publicationSequence ∧
      operation.snapshot.context = operation₀.snapshot.context := by
  simp only [evolve, lookup_adjust_eq] at h
  split at h
  · obtain ⟨operation₀, h₀, rfl⟩ := Option.map_eq_some_iff.1 h
    refine ⟨operation₀, h₀, ?_⟩
    split <;> exact ⟨rfl, rfl, rfl⟩
  · exact ⟨operation, h, rfl, rfl, rfl⟩

/-! ## One registry -/

namespace Books

theorem new (Q : OperationRegistry) : Books Q .new where
  bounded := zero_le _
  counted := le_refl _
  word := by decide
  issued := rfl
  ordered := rfl
  distinct := .nil
  allocated := Subset.refl _
  records _ _ h := nomatch h

variable (B : Books Q s)
include B

/-- An identity is issued exactly when its number was reached. -/
theorem mem_issued {n : ℕ} : IdentityKind.operation.render Q.runtimeId (n + 1) ∈ s.issued ↔ n < s.sequence := by
  rw [B.issued, mem_map]
  constructor
  · rintro ⟨m, hm, heq⟩
    cases IdentityKind.render_injective _ _ heq
    exact mem_range.1 hm
  · exact fun h => ⟨n, mem_range.2 h, rfl⟩

theorem nodup_issued : s.issued.Nodup := by
  rw [B.issued]
  refine Nodup.map ?_ nodup_range
  exact fun i j h => succ.inj (IdentityKind.render_injective _ _ h)

theorem fresh : IdentityKind.operation.render Q.runtimeId (s.sequence + 1) ∉ s.issued := by
  rw [B.mem_issued]
  exact lt_irrefl _

theorem issued_succ : s.issued ++ [IdentityKind.operation.render Q.runtimeId (s.sequence + 1)] =
    (range (s.sequence + 1)).map fun n => IdentityKind.operation.render Q.runtimeId (n + 1) := by
  rw [B.issued, range_succ, map_append]
  rfl

/-- Publications are numbered in their order. -/
theorem pairwise_published : s.published.Pairwise fun x y => x.1 < y.1 := by
  have hp : (s.published.map Prod.fst).Pairwise (· < ·) := by
    rw [B.ordered, pairwise_map]
    exact pairwise_lt_range.imp fun h => succ_lt_succ h
  exact pairwise_map.1 hp

theorem published_inj (hx : x ∈ s.published) (hy : y ∈ s.published) (h : x.1 = y.1) : x = y := by
  refine inj_on_of_nodup_map ?_ hx hy h
  rw [B.ordered]
  exact nodup_range.map fun i j h => succ.inj h

theorem notMem_records (h : id ∉ s.published.map Prod.snd) : id ∉ s.records := by
  intro hmem
  obtain ⟨operation, ho⟩ := mem_iff_lookup.1 hmem
  exact h (mem_map_of_mem (f := Prod.snd) (B.records id operation ho).2)

/-- A publication: the identity is issued and new among the published ones. -/
theorem publish (operation : RetainedOperation) (id : String) (hid : operation.id = id) (hseq : operation.publicationSequence = s.publicationSequence + 1)
    (hnew : id ∉ s.published.map Prod.snd) (hissued : id ∈ s'.issued) (hsub : s.issued ⊆ s'.issued)
    (hrecords : s'.records = s.records.insert id operation)
    (hpublished : s'.published = s.published ++ [(s.publicationSequence + 1, id)])
    (hpub : s'.publicationSequence = s.publicationSequence + 1)
    (hbounded : s.records.size + 1 + s'.reserved ≤ Q.maxOperations)
    (hcounted : s.publicationSequence + 1 + s'.reserved ≤ s'.sequence) (hword : s'.sequence < wordBound)
    (hall : s'.issued = (range s'.sequence).map fun n =>
      IdentityKind.operation.render Q.runtimeId (n + 1)) : Books Q s' where
  bounded := by rwa [hrecords, size_insert_of_notMem (B.notMem_records hnew)]
  counted := by rwa [hpub]
  word := hword
  issued := hall
  ordered := by
    rw [hpublished, map_append, B.ordered, hpub, range_succ, map_append]
    rfl
  distinct := by
    rw [hpublished, map_append]
    refine nodup_append'.2 ⟨B.distinct, nodup_singleton _, ?_⟩
    intro x hx h
    obtain rfl : x = id := mem_singleton.1 h
    exact hnew hx
  allocated := by
    rw [hpublished, map_append]
    refine append_subset.2 ⟨fun x hx => hsub (B.allocated hx), ?_⟩
    exact cons_subset.2 ⟨hissued, nil_subset _⟩
  records := by
    rw [hrecords, hpublished]
    refine forall_insert (fun id' operation' h => ?_) ⟨hid, ?_⟩
    · obtain ⟨hid', hmem⟩ := B.records id' operation' h
      exact ⟨hid', mem_append_left _ hmem⟩
    · rw [hseq]
      exact mem_append_right _ mem_cons_self

/-- Records leave, and capacity is given back. -/
theorem release (hsize : s'.records.size ≤ s.records.size) (hreserved : s'.reserved ≤ s.reserved)
    (hrecords : ∀ id operation, s'.records.lookup id = some operation →
      operation.id = id ∧ (operation.publicationSequence, id) ∈ s.published)
    (hpub : s'.publicationSequence = s.publicationSequence) (hseq : s'.sequence = s.sequence)
    (hissued : s'.issued = s.issued) (hpublished : s'.published = s.published) : Books Q s' where
  bounded := (Nat.add_le_add hsize hreserved).trans B.bounded
  counted := by
    rw [hpub, hseq]
    exact (Nat.add_le_add_left hreserved _).trans B.counted
  word := hseq ▸ B.word
  issued := by rw [hissued, hseq, B.issued]
  ordered := by rw [hpublished, hpub, B.ordered]
  distinct := hpublished ▸ B.distinct
  allocated := by
    rw [hpublished, hissued]
    exact B.allocated
  records := hpublished ▸ hrecords

end Books

/-! ## All registries -/

theorem Held.mono (H : Held Q s r) (h : r.id ∉ s'.published.map Prod.snd) : Held Q s' r :=
  ⟨h, H.valid, H.fits⟩

/-! The registry `g` moves on to `s'`. -/

section
variable {states : ℕ → OperationRegistryState}

theorem books_update (B : Books (R g) s') (H : ∀ h, Books (R h) (states h)) (h : ℕ) :
    Books (R h) (update states g s' h) := by
  by_cases hg : h = g
  · subst hg
    rwa [update_self]
  · rw [update_of_ne hg]
    exact H h

theorem issued_update (h : (states g).issued ⊆ s'.issued) (hr : r.id ∈ (states r.state).issued) :
    r.id ∈ (update states g s' r.state).issued := by
  by_cases hg : r.state = g
  · rw [hg, update_self]
    exact h (hg ▸ hr)
  · rwa [update_of_ne hg]

theorem Held.update (H : Held (R r.state) (states r.state) r)
    (h : r.state = g → r.id ∉ s'.published.map Prod.snd) :
    Held (R r.state) (update states g s' r.state) r := by
  by_cases hg : r.state = g
  · rw [hg, update_self]
    exact Held.mono (hg ▸ H) (h hg)
  · rwa [update_of_ne hg]

end

namespace Inv

theorem new (R : ℕ → OperationRegistry) : Inv R .new where
  books g := .new (R g)
  reserved _ := rfl
  keys _ _ h := nomatch h
  issued _ _ h := nomatch h
  held _ _ h := nomatch h
  apart _ _ _ _ h := nomatch h

variable (I : Inv R w)
include I

theorem withState (B : Books (R g) s') (hreserved : s'.reserved = (w.states g).reserved)
    (hissued : (w.states g).issued ⊆ s'.issued)
    (hpub : ∀ k r, w.reservations.lookup k = some r → r.active → r.state = g →
      r.id ∉ s'.published.map Prod.snd) : Inv R (w.setState g s') where
  books := books_update B I.books
  reserved h := by
    by_cases hg : h = g
    · subst hg
      simpa only [OperationsWorld.setState, update_self, hreserved] using I.reserved h
    · simpa only [OperationsWorld.setState, update_of_ne hg] using I.reserved h
  keys := I.keys
  issued k r hr := issued_update hissued (I.issued k r hr)
  held k r hr ha := (I.held k r hr ha).update (hpub k r hr ha)
  apart := I.apart

/-- A reservation joins. -/
theorem reserve (h : (R g).prepareReservation (w.states g) makeContext = .ok (sequence, id, context)) :
    Inv R { w.setState g (allocate (w.states g) sequence id) with
      reservations := w.reservations.insert w.nextReservation ⟨id, context, g, true⟩
      nextReservation := w.nextReservation + 1 } := by
  have B := I.books g
  obtain ⟨hroom, rfl, hword, hid, hvalid, hfits⟩ := prepareReservation_ok h
  have hnew : w.nextReservation ∉ w.reservations := by
    intro hmem
    obtain ⟨r, hr⟩ := mem_iff_lookup.1 hmem
    exact lt_irrefl _ (I.keys _ r hr)
  have hfresh : id ∉ (w.states g).issued := hid ▸ B.fresh
  have hissued : (w.states g).issued ⊆ (w.states g).issued ++ [id] := subset_append_left _ _
  refine ⟨books_update ?_ I.books, fun i => ?_, ?_, ?_, ?_, ?_⟩
  · refine ⟨?_, ?_, hword, hid ▸ B.issued_succ, B.ordered, B.distinct, ?_, B.records⟩
    · have := B.bounded
      dsimp only [allocate]
      omega
    · have := B.counted
      dsimp only [allocate]
      omega
    · exact fun x hx => hissued (B.allocated hx)
  · simp only [countBy_insert_of_notMem hnew, ← I.reserved i, OperationsWorld.setState]
    by_cases hg : i = g
    · subst hg
      simp [Mine, allocate]
    · simp [update_of_ne hg, Mine, Ne.symm hg]
  · exact forall_insert (fun k r hr => (I.keys k r hr).trans (lt_succ_self _)) (lt_succ_self _)
  · refine forall_insert (fun k r hr => issued_update hissued (I.issued k r hr)) ?_
    simp [OperationsWorld.setState, allocate]
  · refine forall_insert (fun k r hr ha => (I.held k r hr ha).update fun hg => ?_) fun _ => ?_
    · exact hg ▸ (I.held k r hr ha).unpublished
    · refine ⟨?_, hvalid, hfits⟩
      simp only [OperationsWorld.setState, update_self]
      exact fun hmem => hfresh (B.allocated hmem)
  · -- the new identity is not one of an older reservation
    have hne : ∀ k r, w.reservations.lookup k = some r → r.state = g → r.id ≠ id := by
      rintro k r hr hg rfl
      exact hfresh (hg ▸ I.issued k r hr)
    intro k k' r r' hr hr' hs heq
    simp only [lookup_insert_eq] at hr hr'
    split at hr
    · next hk =>
      cases hr
      split at hr'
      · next hk' => rw [hk, hk']
      · exact absurd heq.symm (hne k' r' hr' hs.symm)
    · split at hr'
      · cases hr'
        exact absurd heq (hne k r hr hs)
      · exact I.apart k k' r r' hr hr' hs heq

/-- The reservation `k` is rewritten or dropped, and its registry moves on. -/
theorem consume {m : AssocMap ℕ OperationReservation} (hk : w.reservations.lookup k = some owned)
    (hg : owned.state = g) (B : Books (R g) s') (hissued : s'.issued = (w.states g).issued)
    (hm : ∀ k' r, m.lookup k' = some r → ∃ r₀, w.reservations.lookup k' = some r₀ ∧ r.id = r₀.id ∧
      r.state = r₀.state ∧ (r.active → k' ≠ k ∧ r = r₀))
    (hpub : ∀ x ∈ s'.published.map Prod.snd, x ∈ (w.states g).published.map Prod.snd ∨ x = owned.id)
    (hreserved : s'.reserved = m.countBy (Mine g))
    (hother : ∀ i, i ≠ g → m.countBy (Mine i) = w.reservations.countBy (Mine i)) :
    Inv R { w.setState g s' with reservations := m } := by
  refine ⟨books_update B I.books, fun i => ?_, fun k' r hr => ?_, fun k' r hr => ?_, fun k' r hr ha => ?_, ?_⟩
  · by_cases hi : i = g
    · subst hi
      simpa only [OperationsWorld.setState, update_self] using hreserved
    · simp only [OperationsWorld.setState, update_of_ne hi]
      rw [hother i hi, I.reserved i]
  · obtain ⟨r₀, hr₀, -⟩ := hm k' r hr
    exact I.keys k' r₀ hr₀
  · obtain ⟨r₀, hr₀, hid, hst, -⟩ := hm k' r hr
    have h := I.issued k' r₀ hr₀
    rw [← hid, ← hst] at h
    exact issued_update (fun x hx => hissued ▸ hx) h
  · obtain ⟨r₀, hr₀, -, -, hact⟩ := hm k' r hr
    obtain ⟨hne, rfl⟩ := hact ha
    have H := I.held k' r hr₀ ha
    refine H.update fun hi hmem => ?_
    rcases hpub _ hmem with hmem | heq
    · exact H.unpublished (hi ▸ hmem)
    · exact hne (I.apart k' k r owned hr₀ hk (hi.trans hg.symm) heq)
  · intro k' k'' r r' hr hr' hst hid
    obtain ⟨r₀, hr₀, hid₀, hst₀, -⟩ := hm k' r hr
    obtain ⟨r₁, hr₁, hid₁, hst₁, -⟩ := hm k'' r' hr'
    exact I.apart k' k'' r₀ r₁ hr₀ hr₁ (by rw [← hst₀, hst, hst₁]) (by rw [← hid₀, hid, hid₁])

/-- Somebody uses a control; no registry changes. -/
theorem withControls (controls : ℕ → ControlEvidence) : Inv R { w with controls } :=
  ⟨I.books, I.reserved, I.keys, I.issued, I.held, I.apart⟩

theorem ordinary (h : (R g).prepareAdmission g (w.states g) none makeContext = .ok p) :
    Inv R (w.setState g (publish (w.states g) p control true)) := by
  have B := I.books g
  obtain ⟨hroom, hseq, hword, hid, hpub⟩ := prepareAdmission_ordinary h
  have hfresh : p.id ∉ (w.states g).issued := hid ▸ B.fresh
  have hnew : p.id ∉ (w.states g).published.map Prod.snd := fun hmem => hfresh (B.allocated hmem)
  refine I.withState ?_ rfl (subset_append_left _ _) fun k r hr ha hg hmem => ?_
  · refine B.publish (admitted p control) p.id rfl hpub hnew ?_ (subset_append_left _ _) rfl ?_ hpub
      ?_ ?_ hword ?_
    · exact mem_append_right _ mem_cons_self
    · simp only [publish, hpub]
    · simp only [publish, if_true]
      omega
    · have := B.counted
      simp only [publish, if_true, hseq]
      omega
    · simp only [publish, if_true, hseq, hid]
      exact B.issued_succ
  · simp only [publish, map_append, map_cons, map_nil] at hmem
    rcases mem_append.1 hmem with hmem | hmem
    · exact (I.held k r hr ha).unpublished (hg ▸ hmem)
    · rw [← mem_singleton.1 hmem, ← hg] at hfresh
      exact hfresh (I.issued k r hr)

theorem convert (hk : w.reservations.lookup k = some owned)
    (h : (R g).prepareAdmission g (w.states g) (some owned) makeContext = .ok p) :
    Inv R { w.setState g (publish (w.states g) p control false) with
      reservations := w.reservations.insert k { owned with active := false } } := by
  have B := I.books g
  obtain ⟨ha, hg, hseq, hid, hpub⟩ := prepareAdmission_reserved h
  have H := I.held k owned hk ha
  have hmine : Mine g owned := by simp [Mine, hg, ha]
  have hcount : (w.states g).reserved = (w.reservations.erase k).countBy (Mine g) + 1 := by
    rw [I.reserved g, countBy_of_lookup hk, if_pos hmine]
  have hnew : p.id ∉ (w.states g).published.map Prod.snd := hid ▸ hg ▸ H.unpublished
  refine I.consume hk hg ?_ rfl ?_ ?_ ?_ fun i hi => ?_
  · refine B.publish (admitted p control) p.id rfl hpub hnew ?_ (Subset.refl _) rfl ?_ hpub
      ?_ ?_ ?_ ?_
    · rw [hid]
      exact hg ▸ I.issued k owned hk
    · simp only [publish, hpub]
    · have := B.bounded
      simp only [publish, Bool.false_eq_true, if_false]
      omega
    · have := B.counted
      simp only [publish, Bool.false_eq_true, if_false, hseq]
      omega
    · change p.sequence < wordBound
      exact hseq.symm ▸ B.word
    · simp only [publish, Bool.false_eq_true, if_false, hseq]
      exact B.issued
  · intro k' r hr
    rcases lookup_of_insert hr with ⟨heq, rfl⟩ | ⟨hne, hr⟩
    · exact ⟨owned, heq ▸ hk, rfl, rfl, nofun⟩
    · exact ⟨r, hr, rfl, rfl, fun _ => ⟨hne, rfl⟩⟩
  · intro x hx
    simp only [publish, map_append, map_cons, map_nil, mem_append,
      mem_singleton] at hx
    exact hx.imp_right fun heq => heq.trans hid
  · rw [countBy_insert]
    simp [publish, hcount, Mine]
  · rw [countBy_insert, countBy_of_lookup hk]
    simp [Mine, hg, Ne.symm hi]

theorem dropReservation (hk : w.reservations.lookup k = some owned) : Inv R (dropReservation w k owned) := by
  have B := I.books owned.state
  have hlookup : ∀ k' r, (w.reservations.erase k).lookup k' = some r → ∃ r₀, w.reservations.lookup k' = some r₀ ∧
      r.id = r₀.id ∧ r.state = r₀.state ∧ (r.active → k' ≠ k ∧ r = r₀) := by
    intro k' r hr
    obtain ⟨hne, hr⟩ := lookup_of_erase hr
    exact ⟨r, hr, rfl, rfl, fun _ => ⟨hne, rfl⟩⟩
  unfold OperationRegistry.dropReservation
  split
  · next ha =>
    have hmine : Mine owned.state owned := by simp [Mine, ha]
    have hcount : (w.states owned.state).reserved =
        (w.reservations.erase k).countBy (Mine owned.state) + 1 := by
      rw [I.reserved owned.state, countBy_of_lookup hk, if_pos hmine]
    refine I.consume hk rfl ?_ rfl hlookup (fun x hx => .inl hx) ?_ fun i hi => ?_
    · exact B.release (le_refl _) (sub_le _ _) B.records rfl rfl rfl rfl
    · simp [hcount]
    · rw [countBy_of_lookup hk]
      simp [Mine, Ne.symm hi]
  · next ha =>
    have hsame : w = w.setState owned.state (w.states owned.state) := by
      simp [OperationsWorld.setState]
    have hnot : ∀ i, Mine i owned = false := by
      intro i
      simp [Mine, ha]
    have hcount : ∀ i, (w.reservations.erase k).countBy (Mine i) = w.reservations.countBy (Mine i) := by
      intro i
      rw [countBy_of_lookup (m := w.reservations) hk, hnot]
      rfl
    have := I.consume hk rfl B rfl hlookup (fun x hx => .inl hx)
      ((I.reserved owned.state).trans (hcount _).symm) fun i _ => hcount i
    rwa [← hsame] at this

theorem forget (id : String) : Inv R (OperationRegistry.forget g w id).1 := by
  have B := I.books g
  unfold OperationRegistry.forget
  dsimp only
  split
  · exact I
  · refine I.withState ?_ rfl (Subset.refl _) fun k r hr ha hg => ?_
    · refine B.release size_erase_le (le_refl _) (fun i operation h => ?_) rfl rfl rfl rfl
      exact B.records i operation (lookup_of_erase h).2
    · exact hg ▸ (I.held k r hr ha).unpublished

theorem evolve (id : String) (snapshot : OperationSnapshot) :
    Inv R (w.setState g (OperationRegistry.evolve (w.states g) id snapshot)) := by
  have B := I.books g
  refine I.withState ?_ rfl (Subset.refl _) fun k r hr ha hg => ?_
  · refine B.release ?_ (le_refl _) (fun i operation h => ?_) rfl rfl rfl rfl
    · simp only [OperationRegistry.evolve, adjust]
      split
      · next h => exact le_of_eq (size_insert_of_lookup h)
      · exact le_refl _
    · obtain ⟨operation₀, h₀, hid, hseq, -⟩ := lookup_evolve h
      rw [hid, hseq]
      exact B.records i operation₀ h₀
  · exact hg ▸ (I.held k r hr ha).unpublished

end Inv

end OperationRegistry

end LuaSkills.Embedded
