import LuaSkills.Embedded.Operations.Accounts

/-!
# Runs of the operation registry

Every call keeps the accounts, so every sequence of calls on any number of registries does, whatever
contexts are made, controls offered and operations published in between. A call that is refused changes
nothing.
-/

namespace LuaSkills.Embedded

open Function

variable {e : EmbeddedError} {checked : EmbeddedResult Unit}

namespace OperationRegistry
variable {R : ℕ → OperationRegistry} {w : OperationsWorld} {g k control : ℕ} {id : String}
  {owned : OperationReservation} {makeContext : String → EmbeddedResult OperationContext}

theorem Inv.admitWithReservation (I : Inv R w) (control : ℕ)
    {reservation : Option (ℕ × OperationReservation)}
    (hr : ∀ x ∈ reservation, w.reservations.lookup x.1 = some x.2)
    (makeContext : String → EmbeddedResult OperationContext) :
    Inv R ((R g).admitWithReservation g w control reservation makeContext).1 := by
  simp only [OperationRegistry.admitWithReservation]
  split
  · exact I
  · next p hp =>
    split
    · exact I
    · next evidence _ =>
      have J := I.withControls (update w.controls control evidence)
      match reservation, hr, hp with
      | none, _, hp => exact J.ordinary hp
      | some (k, owned), hr, hp => exact J.convert (hr _ rfl) hp

theorem Inv.perform (I : Inv R w) (call : Call) : Inv R (perform R w call).1 := by
  cases call with
  | admitContext g control checked makeContext =>
    simp only [OperationRegistry.perform, OperationRegistry.admitContext, Prod.map]
    split
    · exact I
    · exact I.admitWithReservation control (fun _ h => absurd h (Option.not_mem_none _)) makeContext
  | reserveContext g makeContext =>
    simp only [OperationRegistry.perform, OperationRegistry.reserveContext, Prod.map]
    split
    · exact I
    · next h => exact I.reserve h
  | admitReserved g k control =>
    simp only [OperationRegistry.perform]
    split
    · exact I
    · next owned hk =>
      refine I.admitWithReservation control ?_ _
      rintro x ⟨⟩
      exact hk
  | dropReservation k =>
    simp only [OperationRegistry.perform]
    split
    · exact I
    · next hk => exact I.dropReservation hk
  | forget g id => exact I.forget id
  | evolve g id snapshot => exact I.evolve id snapshot
  | useControl control =>
    simp only [OperationRegistry.perform]
    split
    · exact I.withControls _
    · exact I

theorem Inv.runFrom (I : Inv R w) (calls : List Call) : Inv R (runFrom R w calls) := by
  induction calls generalizing w with
  | nil => exact I
  | cons call calls ih => exact ih (I.perform call)

theorem Inv.run (R : ℕ → OperationRegistry) (calls : List Call) : Inv R (run R calls) :=
  (Inv.new R).runFrom calls

/-! ## What a call promises -/

/-- A refused admission leaves everything. -/
theorem admitWithReservation_error
    (h : ((R g).admitWithReservation g w control reservation makeContext).2 = .error e) :
    ((R g).admitWithReservation g w control reservation makeContext).1 = w := by
  simp only [admitWithReservation] at h ⊢
  split at h
  · rfl
  · split at h
    · rfl
    · split at h <;> cases h

theorem admitContext_error
    (h : ((R g).admitContext g w control checked makeContext).2 = .error e) :
    ((R g).admitContext g w control checked makeContext).1 = w := by
  cases checked with
  | error => rfl
  | ok => exact admitWithReservation_error h

theorem reserveContext_error (h : ((R g).reserveContext g w makeContext).2 = .error e) :
    ((R g).reserveContext g w makeContext).1 = w := by
  simp only [reserveContext] at h ⊢
  split at h
  · rfl
  · cases h

theorem map_eq_error {x : EmbeddedResult String}
    (h : (x.map fun _ => ()) = .error e) : x = .error e := by
  cases x with
  | error => exact congrArg Except.error (Except.error.inj h)
  | ok => cases h

/-- A refused call leaves everything. -/
theorem perform_error (h : (perform R w call).2 = .error e) : (perform R w call).1 = w := by
  cases call with
  | admitContext g control checked makeContext => exact admitContext_error (map_eq_error h)
  | reserveContext g makeContext => exact reserveContext_error (map_eq_error h)
  | admitReserved g k control =>
    simp only [perform] at h ⊢
    split at h
    · cases h
    · exact admitWithReservation_error (map_eq_error h)
  | dropReservation k =>
    simp only [perform] at h
    split at h <;> cases h
  | forget g id =>
    simp only [perform, forget] at h ⊢
    split at h
    · rfl
    · cases h
  | evolve | useControl => cases h

/-- The operation `id` becomes visible under the next number of its registry. -/
structure Publishes (s s' : OperationRegistryState) (id : String) (control : ℕ) : Prop where
  number : s'.publicationSequence = s.publicationSequence + 1
  published : s'.published = s.published ++ [(s'.publicationSequence, id)]
  record : ∃ operation, s'.records = s.records.insert id operation ∧ operation.id = id ∧
    operation.publicationSequence = s'.publicationSequence ∧ operation.control = control

theorem publishes_publish {s : OperationRegistryState} {p : OperationAdmission}
    (h : p.publicationSequence = s.publicationSequence + 1) :
    Publishes s (publish s p control fresh) p.id control :=
  ⟨h, rfl, _, rfl, rfl, rfl, rfl⟩

/-- An admission that succeeds has bound its control and published. -/
theorem admitWithReservation_ok
    (h : ((R g).admitWithReservation g w control reservation makeContext).2 = .ok id) :
    ∃ p, (R g).prepareAdmission g (w.states g) (reservation.map Prod.snd) makeContext = .ok p ∧ p.id = id ∧
      let w' := ((R g).admitWithReservation g w control reservation makeContext).1
      w'.states = update w.states g (publish (w.states g) p control reservation.isNone) ∧
        w'.reservations = reservation.elim w.reservations fun r =>
          w.reservations.insert r.1 { r.2 with active := false } := by
  simp only [admitWithReservation] at h ⊢
  split at h
  · cases h
  next p hp =>
    refine ⟨p, hp, ?_⟩
    split at h
    · cases h
    · cases reservation <;> cases h <;> exact ⟨rfl, rfl, rfl⟩

theorem admitContext_ok
    (h : ((R g).admitContext g w control checked makeContext).2 = .ok id) :
    ∃ p, (R g).prepareAdmission g (w.states g) none makeContext = .ok p ∧ p.id = id ∧
      let w' := ((R g).admitContext g w control checked makeContext).1
      w'.states = update w.states g (publish (w.states g) p control true) ∧
        w'.reservations = w.reservations := by
  cases checked with
  | error => cases h
  | ok => exact admitWithReservation_ok h

theorem reserveContext_ok (h : ((R g).reserveContext g w makeContext).2 = .ok id) :
    ∃ sequence context, (R g).prepareReservation (w.states g) makeContext = .ok (sequence, id, context) ∧
      let w' := ((R g).reserveContext g w makeContext).1
      w'.states = update w.states g (allocate (w.states g) sequence id) ∧
        w'.reservations = w.reservations.insert w.nextReservation ⟨id, context, g, true⟩ := by
  simp only [reserveContext] at h ⊢
  split at h
  · cases h
  · next sequence i context hp =>
    cases h
    exact ⟨sequence, context, hp, rfl, rfl⟩

variable (I : Inv R w)
include I

/-- A publication number is left for every unconsumed reservation. -/
theorem Inv.publication_lt (hk : w.reservations.lookup k = some owned) (ha : owned.active) :
    (w.states owned.state).publicationSequence + 1 < wordBound := by
  have hpos : 0 < (w.states owned.state).reserved := by
    rw [I.reserved]
    exact AList.countBy_pos_of_lookup hk (by simp [Mine, ha])
  have hc := (I.books owned.state).counted
  have hw := (I.books owned.state).word
  omega

theorem Inv.convertible (hk : w.reservations.lookup k = some owned) (ha : owned.active)
    (hc : w.controls control = .fresh) :
    ((R owned.state).admitReserved owned.state w k owned control).2 = .ok owned.id := by
  obtain ⟨p, hp, hid⟩ := (I.held k owned hk ha).prepare
    (fun _ => .error (.invalid "reserved admission must use its captured context")) rfl ha
    (I.publication_lt hk ha)
  have he : attachEffects (w.controls control) owned.id = .ok (.registered owned.id) := by
    rw [attachEffects, hc]
    rfl
  simp only [admitReserved, OperationRegistry.admitWithReservation, Option.map_some, hp, he, hid]

theorem Inv.publication_injective (h : (w.states g).records.lookup id = some operation)
    (h' : (w.states g).records.lookup id' = some operation')
    (heq : operation.publicationSequence = operation'.publicationSequence) : id = id' := by
  have hmem := ((I.books g).records id operation h).2
  have hmem' := ((I.books g).records id' operation' h').2
  exact congrArg Prod.snd ((I.books g).published_inj hmem hmem' heq)

/-- An admission publishes, and its identity is the new one. -/
theorem Inv.admits (h : ((R g).admitContext g w control checked makeContext).2 = .ok id) :
    let w' := ((R g).admitContext g w control checked makeContext).1
    id ∉ (w.states g).issued ∧ Publishes (w.states g) (w'.states g) id control ∧
      (w'.states g).issued = (w.states g).issued ++ [id] ∧
      (w'.states g).reserved = (w.states g).reserved ∧ w'.reservations = w.reservations := by
  obtain ⟨p, hp, rfl, hstates, hreservations⟩ := admitContext_ok h
  obtain ⟨-, -, -, hid, hnumber⟩ := prepareAdmission_ordinary hp
  dsimp only
  rw [hstates, update_self]
  exact ⟨hid ▸ (I.books g).fresh, publishes_publish hnumber, rfl, rfl, hreservations⟩

/-- A reservation takes the new identity, and publishes nothing. -/
theorem Inv.reserves (h : ((R g).reserveContext g w makeContext).2 = .ok id) :
    let w' := ((R g).reserveContext g w makeContext).1
    id ∉ (w.states g).issued ∧ (w'.states g).issued = (w.states g).issued ++ [id] ∧
      (w'.states g).reserved = (w.states g).reserved + 1 ∧ (w'.states g).records = (w.states g).records ∧
      (w'.states g).published = (w.states g).published ∧
      ∃ k context, k ∉ w.reservations ∧ w'.reservations = w.reservations.insert k ⟨id, context, g, true⟩ := by
  obtain ⟨sequence, context, hp, hstates, hreservations⟩ := reserveContext_ok h
  obtain ⟨-, -, -, hid, -⟩ := prepareReservation_ok hp
  dsimp only
  rw [hstates, update_self]
  refine ⟨hid ▸ (I.books g).fresh, rfl, rfl, rfl, rfl, w.nextReservation, context, fun hmem => ?_, hreservations⟩
  obtain ⟨r, hr⟩ := AList.mem_iff_lookup.1 hmem
  exact Nat.lt_irrefl _ (I.keys _ r hr)

/-- A conversion publishes the identity of its reservation, which is consumed. -/
theorem Inv.converts (hk : w.reservations.lookup k = some owned)
    (h : ((R g).admitReserved g w k owned control).2 = .ok id) :
    let w' := ((R g).admitReserved g w k owned control).1
    owned.active ∧ owned.state = g ∧ owned.id = id ∧ Publishes (w.states g) (w'.states g) id control ∧
      (w'.states g).issued = (w.states g).issued ∧ (w'.states g).reserved + 1 = (w.states g).reserved ∧
      w'.reservations = w.reservations.insert k { owned with active := false } := by
  obtain ⟨p, hp, rfl, hstates, hreservations⟩ := admitWithReservation_ok h
  obtain ⟨ha, hg, -, hid, hnumber⟩ := prepareAdmission_reserved hp
  have hpos : 0 < (w.states g).reserved := by
    rw [I.reserved]
    exact AList.countBy_pos_of_lookup hk (decide_eq_true ⟨hg, ha⟩)
  dsimp only [admitReserved]
  rw [hstates, update_self]
  exact ⟨ha, hg, hid.symm, publishes_publish hnumber, rfl, Nat.sub_add_cancel hpos, hreservations⟩

omit I

/-- A call on one registry that hands out what it records there. -/
theorem issued_of_update {w' : OperationsWorld} {id : Option String}
    (hstates : w'.states = update w.states h s) (hissued : s.issued = (w.states h).issued ++ id.toList) :
    (w'.states g).issued = (w.states g).issued ++ (if h = g then id else none).toList := by
  rw [hstates]
  split
  · next heq => rw [← heq, update_self, hissued]
  · next hne =>
    rw [update_of_ne (Ne.symm hne)]
    exact (List.append_nil _).symm

theorem issued_of_same {w' : OperationsWorld} (hstates : w'.states = update w.states h s)
    (hissued : s.issued = (w.states h).issued) : (w'.states g).issued = (w.states g).issued ++ [] := by
  have : _ = (w.states g).issued ++ (if h = g then none else none).toList :=
    issued_of_update hstates (hissued.trans (List.append_nil _).symm)
  rwa [ite_self] at this

/-- The registry records the identities that its calls return. -/
theorem issued_perform (call : Call) :
    ((perform R w call).1.states g).issued = (w.states g).issued ++ (handsOut R g w call).toList := by
  have hrefused {w' : OperationsWorld} (h : w' = w) : (w'.states g).issued = (w.states g).issued ++ [] := by
    rw [h, List.append_nil]
  cases call with
  | admitContext h control checked makeContext =>
    simp only [handsOut]
    cases hadmit : ((R h).admitContext h w control checked makeContext).2 with
    | error e =>
      rw [show (Except.error e : EmbeddedResult String).toOption = none from rfl, ite_self]
      exact hrefused (admitContext_error hadmit)
    | ok id =>
      obtain ⟨p, -, rfl, hstates, -⟩ := admitContext_ok hadmit
      exact issued_of_update hstates rfl
  | reserveContext h makeContext =>
    simp only [handsOut]
    cases hreserve : ((R h).reserveContext h w makeContext).2 with
    | error e =>
      rw [show (Except.error e : EmbeddedResult String).toOption = none from rfl, ite_self]
      exact hrefused (reserveContext_error hreserve)
    | ok id =>
      obtain ⟨sequence, context, -, hstates, -⟩ := reserveContext_ok hreserve
      exact issued_of_update hstates rfl
  | admitReserved h k control =>
    simp only [perform]
    split
    · exact hrefused rfl
    next owned _ =>
      cases hadmit : ((R h).admitReserved h w k owned control).2 with
      | error e => exact hrefused (admitWithReservation_error hadmit)
      | ok id =>
        obtain ⟨p, -, -, hstates, -⟩ := admitWithReservation_ok hadmit
        exact issued_of_same hstates rfl
  | dropReservation k =>
    simp only [perform]
    split
    · exact hrefused rfl
    · unfold dropReservation
      split
      · exact issued_of_same rfl rfl
      · exact (List.append_nil _).symm
  | forget h id =>
    simp only [perform, forget]
    split
    · exact hrefused rfl
    · exact issued_of_same rfl rfl
  | evolve h id snapshot => exact issued_of_same rfl rfl
  | useControl control =>
    simp only [perform]
    split <;> exact (List.append_nil _).symm

theorem issued_runFrom (calls : List Call) :
    ((runFrom R w calls).states g).issued = (w.states g).issued ++ handedOut R g w calls := by
  induction calls generalizing w with
  | nil => exact (List.append_nil _).symm
  | cons call calls ih =>
    refine (ih (w := (perform R w call).1)).trans ?_
    rw [issued_perform, List.append_assoc]
    rfl

/-- Retention over every sequence of calls, refused ones included. Records and reserved capacity stay
under the limit, and the reserved capacity of a registry is the number of its unconsumed reservations.
The identities that a registry ever returned are the issued ones, each once and in their order: a record,
a reservation and each publication have an issued one. Publications are numbered in their order, and the
records have the numbers of theirs. An admission returns a new identity and publishes a record under it; a
reservation returns a new one and is kept under it, with nothing published. An unconsumed reservation
converts under every fresh control however full its registry is; a conversion publishes its identity,
gives its slot back and leaves it consumed. A refused call changes nothing. -/
theorem registry_retention (R : ℕ → OperationRegistry) (calls : List Call) :
    let w := run R calls
    (∀ g, let s := w.states g
      s.records.size + s.reserved ≤ (R g).maxOperations ∧
      s.reserved = w.reservations.countBy (fun r => r.state = g ∧ r.active) ∧
      s.issued = handedOut R g .new calls ∧ s.issued.Nodup ∧
      s.published.map Prod.snd ⊆ s.issued ∧ (s.published.map Prod.snd).Nodup ∧
      s.published.Pairwise (fun x y => x.1 < y.1) ∧
      (∀ id operation, s.records.lookup id = some operation →
        operation.id = id ∧ (operation.publicationSequence, id) ∈ s.published) ∧
      (∀ id id' operation operation', s.records.lookup id = some operation →
        s.records.lookup id' = some operation' →
        operation.publicationSequence = operation'.publicationSequence → id = id')) ∧
    (∀ k r, w.reservations.lookup k = some r → r.id ∈ (w.states r.state).issued) ∧
    (∀ g control checked makeContext id,
      ((R g).admitContext g w control checked makeContext).2 = .ok id →
      let w' := ((R g).admitContext g w control checked makeContext).1
      id ∉ (w.states g).issued ∧ Publishes (w.states g) (w'.states g) id control ∧
        (w'.states g).issued = (w.states g).issued ++ [id] ∧
        (w'.states g).reserved = (w.states g).reserved ∧ w'.reservations = w.reservations) ∧
    (∀ g makeContext id, ((R g).reserveContext g w makeContext).2 = .ok id →
      let w' := ((R g).reserveContext g w makeContext).1
      id ∉ (w.states g).issued ∧ (w'.states g).issued = (w.states g).issued ++ [id] ∧
        (w'.states g).reserved = (w.states g).reserved + 1 ∧ (w'.states g).records = (w.states g).records ∧
        (w'.states g).published = (w.states g).published ∧ ∃ k context, k ∉ w.reservations ∧
          w'.reservations = w.reservations.insert k ⟨id, context, g, true⟩) ∧
    (∀ g k r control id, w.reservations.lookup k = some r →
      ((R g).admitReserved g w k r control).2 = .ok id →
      let w' := ((R g).admitReserved g w k r control).1
      r.active ∧ r.state = g ∧ r.id = id ∧ Publishes (w.states g) (w'.states g) id control ∧
        (w'.states g).issued = (w.states g).issued ∧
        (w'.states g).reserved + 1 = (w.states g).reserved ∧
        w'.reservations = w.reservations.insert k { r with active := false }) ∧
    (∀ k r control, w.reservations.lookup k = some r → r.active → w.controls control = .fresh →
      ((R r.state).admitReserved r.state w k r control).2 = .ok r.id) ∧
    (∀ call e, (perform R w call).2 = .error e → (perform R w call).1 = w) := by
  intro w
  have I : Inv R w := .run R calls
  refine ⟨fun g => ?_, I.issued, fun g control checked makeContext id h => I.admits h,
    fun g makeContext id h => I.reserves h, fun g k r control id hk h => I.converts hk h,
    fun k r control hk ha hc => I.convertible hk ha hc, fun call e h => perform_error h⟩
  have B := I.books g
  refine ⟨B.bounded, ?_, issued_runFrom calls, B.nodup_issued, B.allocated, B.distinct,
    B.pairwise_published, B.records, fun id id' operation operation' h h' heq =>
      I.publication_injective h h' heq⟩
  exact (I.reserved g).trans (AList.countBy_congr fun _ _ _ => rfl)

end OperationRegistry

end LuaSkills.Embedded
