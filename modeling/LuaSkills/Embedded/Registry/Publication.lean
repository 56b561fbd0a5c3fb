import LuaSkills.Embedded.Registry.Runs

/-!
# Publication and snapshots

A snapshot names the registrations that were active when it was taken, and its revision is the
publication counter. `Published` is kept by every section: an active name leads to a retained
registration that accepts, and a registration leaves the map before it closes. `Continues` says what
two worlds of one run share: identities stay bound, and while the registry is open the counter tells
different maps apart.
-/

namespace LuaSkills.Embedded

open AList List Option

variable {requests : List CapabilityRegistrationRequest}

/-- The registrations that were active at one revision. An entry is the identity of a registration on
the heap. -/
structure CapabilitySnapshot where
  runtimeId : String
  revision : ℕ
  entries : AssocMap String String

/-- `revision` as VM matching compares it. -/
def CapabilitySnapshot.revisionText (s : CapabilitySnapshot) : String :=
  s.runtimeId ++ (":snapshot:" ++ s.revision.repr)

def RegistryTask.Allowed (registry : RegistryState) (heap : AssocMap String EntryState) :
    RegistryTask → Prop
  | .unregister id .closing => id ∈ heap ∧ ∀ name, registry.active.lookup name ≠ some id
  | .closeBroker _ _ | .closeAndPoll _ _ _ => registry.closing = true
  | _ => True

namespace CapabilityRegistry
variable (R : CapabilityRegistry)

/-- `snapshot`; an active registration that is not retained would be a panic, which is `none`. -/
def snapshot (w : RegistryWorld) : Option (EmbeddedResult CapabilitySnapshot) :=
  if w.registry.closing then some (.error ⟨.closed, "capability registry is closed"⟩)
  else if ∀ x ∈ w.registry.active.entries, x.2 ∈ w.registry.entries then
    some (.ok {
      runtimeId := R.runtimeId
      revision := w.registry.sequence
      entries := w.registry.active })
  else none

/-- What `register` returns for a batch that passed its checks, in the order of the batch. -/
def registeredIds (w : RegistryWorld) (requests : List CapabilityRegistrationRequest) :
    List String :=
  (range' (w.registry.sequence + 1) requests.length).map
    (IdentityKind.capability.render R.runtimeId)

/-- Registrations keep their declaration, and those not in `dead` keep accepting. -/
def Steady (dead : String → Prop) (heap heap' : AssocMap String EntryState) : Prop :=
  ∀ id e, heap.lookup id = some e → ∃ e', heap'.lookup id = some e' ∧
    e'.descriptor = e.descriptor ∧ (e.accepting = true → e'.accepting = true ∨ dead id)

structure Published (registry : RegistryState) (heap : AssocMap String EntryState)
    (tasks : AssocMap ℕ RegistryTask) : Prop where
  active : ∀ name id, registry.active.lookup name = some id → id ∈ registry.entries ∧
    ∃ e, heap.lookup id = some e ∧ e.descriptor.name = name ∧ e.accepting = true
  retained : ∀ id ∈ registry.entries, id ∈ heap
  closed : registry.closing = true → registry.active = ∅
  tasks : ∀ k t, tasks.lookup k = some t → t.Allowed registry heap

/-- What a later world of a run keeps of an earlier one. -/
structure Continues (w w' : RegistryWorld) : Prop where
  bound : Steady (fun _ => True) w.heap w'.heap
  counted : w.registry.sequence ≤ w'.registry.sequence
  shut : w.registry.closing = true → w'.registry.closing = true
  identified : w'.registry.closing = false → w'.registry.sequence = w.registry.sequence →
    w'.registry.active = w.registry.active

/-- A whole batch became visible: each name leads to its own new registration. -/
structure Registered (R : CapabilityRegistry) (requests : List CapabilityRegistrationRequest)
    (w w' : RegistryWorld) : Prop where
  entries : w'.registry.entries = w.registry.entries ++ R.registeredIds w requests
  distinct : (R.registeredIds w requests).Nodup
  fresh : ∀ id ∈ R.registeredIds w requests, id ∉ w.heap
  named : ∀ (i : ℕ) request, requests[i]? = some request → ∃ id,
    (R.registeredIds w requests)[i]? = some id ∧
    w'.registry.active.lookup request.descriptor.name = some id ∧
    w'.heap.lookup id = some (.registered request)
  others : ∀ name, name ∉ requests.map (·.descriptor.name) →
    w'.registry.active.lookup name = w.registry.active.lookup name
  kept : ∀ id ∈ w.heap, w'.heap.lookup id = w.heap.lookup id

section
variable {R : CapabilityRegistry} {w w' w'' : RegistryWorld} {id : String} {e e' : EntryState}
  {heap heap' : AssocMap String EntryState} {tasks tasks' : AssocMap ℕ RegistryTask}
  {registry : RegistryState} {t : RegistryTask} {k : ℕ} {dead dead' : String → Prop}

/-! ## Registrations on the heap -/

theorem Steady.refl : Steady dead heap heap :=
  fun _ e he => ⟨e, he, rfl, .inl⟩

theorem Steady.trans (h : Steady dead heap heap') (h' : Steady dead heap' heap'') :
    Steady dead heap heap'' := by
  intro id e he
  obtain ⟨e', he', hdescriptor, hacc⟩ := h id e he
  obtain ⟨e'', he'', hdescriptor', hacc'⟩ := h' id e' he'
  refine ⟨e'', he'', hdescriptor'.trans hdescriptor, ?_⟩
  intro h
  exact (hacc h).elim hacc' .inr

theorem Steady.imp (h : Steady dead heap heap') (himp : ∀ id, dead id → dead' id) :
    Steady dead' heap heap' := by
  intro id e he
  obtain ⟨e', he', hdescriptor, hacc⟩ := h id e he
  exact ⟨e', he', hdescriptor, fun h => (hacc h).imp_right (himp id)⟩

theorem Steady.mem (h : Steady dead heap heap') (hid : id ∈ heap) : id ∈ heap' := by
  obtain ⟨e, he⟩ := mem_iff_lookup.1 hid
  obtain ⟨e', he', -⟩ := h id e he
  exact mem_of_lookup he'

theorem Steady.setEntry (he : heap.lookup id = some e) (hdescriptor : e'.descriptor = e.descriptor)
    (hacc : e.accepting = true → e'.accepting = true ∨ dead id) :
    Steady dead heap (heap.insert id e') := by
  intro i x hx
  rw [lookup_insert_eq]
  split
  next hi =>
    rw [hi, he] at hx
    cases hx
    exact ⟨e', rfl, hdescriptor, hi ▸ hacc⟩
  next => exact ⟨x, hx, rfl, .inl⟩

theorem Steady.publish (hid : id ∉ heap) : Steady dead heap (heap.insert id e) := by
  intro i x hx
  rw [lookup_insert_eq, if_neg]
  · exact ⟨x, hx, rfl, .inl⟩
  · rintro rfl
    exact hid (mem_of_lookup hx)

theorem Steady.endRelease (w : RegistryWorld) (id : String) :
    Steady dead w.heap (w.endRelease id).heap := by
  intro i x hx
  change ∃ e', (w.heap.adjust id _).lookup i = some e' ∧ _
  rw [lookup_adjust_eq, hx]
  split
  · exact ⟨_, rfl, rfl, .inl⟩
  · exact ⟨x, rfl, rfl, .inl⟩

/-! ## Two worlds of a run -/

theorem Continues.refl : Continues w w := ⟨.refl, le_rfl, fun h => h, fun _ _ => rfl⟩

theorem Continues.trans (h : Continues w w') (h' : Continues w' w'') : Continues w w'' where
  bound := h.bound.trans h'.bound
  counted := h.counted.trans h'.counted
  shut := fun hc => h'.shut (h.shut hc)
  identified := by
    intro hopen heq
    have hmiddle : w'.registry.closing = false := by
      by_contra hne
      rw [h'.shut (by simpa using hne)] at hopen
      cases hopen
    have hcounted := h.counted
    have hcounted' := h'.counted
    rw [h'.identified hopen (by omega), h.identified hmiddle (by omega)]

/-- A section that leaves the registry as it is. -/
theorem Continues.quiet (hregistry : w'.registry = w.registry)
    (hheap : Steady (fun _ => True) w.heap w'.heap) : Continues w w' where
  bound := hheap
  counted := hregistry ▸ le_rfl
  shut := by simp [hregistry]
  identified := by simp [hregistry]

/-! ## What the sections keep -/

theorem Steady.allowed (hheap : Steady dead heap heap') (h : t.Allowed registry heap) :
    t.Allowed registry heap' := by
  cases t with
  | unregister id stage =>
    cases stage with
    | closing => exact ⟨hheap.mem h.1, h.2⟩
    | _ => trivial
  | _ => exact h

/-- A section that leaves the registry as it is. Only registrations without a name stop accepting. -/
theorem Published.quiet (h : Published registry heap tasks) (hheap : Steady dead heap heap')
    (hdead : ∀ name id, registry.active.lookup name = some id → ¬ dead id)
    (htasks : ∀ k t, tasks'.lookup k = some t →
      t.Allowed registry heap ∨ ∃ j, tasks.lookup j = some t) :
    Published registry heap' tasks' where
  active := by
    intro name id hid
    obtain ⟨hentry, e, he, hname, hacc⟩ := h.active name id hid
    obtain ⟨e', he', hdescriptor, hacc'⟩ := hheap id e he
    refine ⟨hentry, e', he', ?_, (hacc' hacc).resolve_right (hdead name id hid)⟩
    rw [hdescriptor, hname]
  retained := fun id hid => hheap.mem (h.retained id hid)
  closed := h.closed
  tasks := by
    intro k t ht
    rcases htasks k t ht with ht | ⟨j, ht⟩
    · exact hheap.allowed ht
    · exact hheap.allowed (h.tasks j t ht)

theorem setTask_allowed (t' : Option RegistryTask) (h : ∀ x, t' = some x → x.Allowed registry heap) :
    ∀ j x, (setTask tasks k t').lookup j = some x →
      x.Allowed registry heap ∨ ∃ j, tasks.lookup j = some x := by
  intro j x hx
  rcases lookup_setTask _ hx with ⟨ht, -⟩ | hx
  · exact .inl (h x ht)
  · exact .inr ⟨j, hx⟩

theorem insert_allowed (ht : t.Allowed registry heap) : ∀ j x, (tasks.insert k t).lookup j = some x →
    x.Allowed registry heap ∨ ∃ j, tasks.lookup j = some x :=
  setTask_allowed (some t) fun _ h => some.inj h ▸ ht

theorem publish_published (h : Published w.registry w.heap w.tasks)
    (hfresh : IdentityKind.capability.render R.runtimeId (w.registry.sequence + 1) ∉ w.heap)
    (hopen : w.registry.closing = false) :
    Published (R.publish w request).registry (R.publish w request).heap (R.publish w request).tasks := by
  have hheap : Steady (fun _ => False) w.heap (R.publish w request).heap := .publish hfresh
  exact {
    active := by
      intro name id hid
      change (w.registry.active.insert _ _).lookup name = some id at hid
      rcases lookup_of_insert hid with ⟨hname, rfl⟩ | ⟨-, hid⟩
      · exact ⟨mem_append_right _ (mem_singleton_self _), .registered request,
          lookup_insert _, hname.symm, rfl⟩
      · obtain ⟨hentry, e, he, hname, hacc⟩ := h.active name id hid
        obtain ⟨e', he', hdescriptor, hacc'⟩ := hheap id e he
        refine ⟨mem_append_left _ hentry, e', he', ?_, (hacc' hacc).resolve_right not_false⟩
        rw [hdescriptor, hname]
    retained := by
      intro id hid
      rcases mem_append.1 hid with hid | hid
      · exact hheap.mem (h.retained id hid)
      · exact (mem_insert _).2 (.inl (mem_singleton.1 hid))
    closed := by
      intro hclosing
      change w.registry.closing = true at hclosing
      rw [hopen] at hclosing
      cases hclosing
    tasks := by
      intro k t ht
      have hallowed := hheap.allowed (h.tasks k t ht)
      cases t with
      | unregister id stage =>
        cases stage with
        | closing =>
          refine ⟨hallowed.1, ?_⟩
          intro name
          change (w.registry.active.insert _ _).lookup name ≠ some id
          rw [lookup_insert_eq]
          split
          · -- the new identity is not one that a task is closing
            intro heq
            exact hfresh (some.inj heq ▸ (h.tasks k _ ht).1)
          · exact hallowed.2 name
        | _ => trivial
      | _ => exact hallowed }

theorem publish_continues
    (hfresh : IdentityKind.capability.render R.runtimeId (w.registry.sequence + 1) ∉ w.heap) :
    Continues w (R.publish w request) where
  bound := .publish hfresh
  counted := Nat.le_succ _
  shut := fun h => h
  identified := fun _ heq => absurd heq (Nat.succ_ne_self _)

theorem Published.section (h : Published w.registry w.heap w.tasks)
    (hregistry : w'.registry = w.registry) (hheap : Steady dead w.heap w'.heap)
    (hdead : ∀ name id, w.registry.active.lookup name = some id → ¬ dead id)
    (htasks : ∀ k t, w'.tasks.lookup k = some t →
      t.Allowed w.registry w.heap ∨ ∃ j, w.tasks.lookup j = some t) :
    Published w'.registry w'.heap w'.tasks ∧ Continues w w' := by
  refine ⟨?_, .quiet hregistry (hheap.imp fun _ _ => trivial)⟩
  rw [hregistry]
  exact h.quiet hheap hdead htasks

theorem Published.nothing_active (h : Published registry heap tasks)
    (hclosing : registry.closing = true) (name id : String) :
    registry.active.lookup name ≠ some id := by
  rw [h.closed hclosing, lookup_empty]
  exact nofun

theorem close_steady (he : w.heap.lookup id = some e) :
    Steady (· = id) w.heap (w.closeEntry id e).heap := by
  refine Steady.setEntry he ?_ fun _ => .inr rfl
  rw [EntryState.close, retire_descriptor]

theorem advance_published (h : Published w.registry w.heap w.tasks) (ht : w.tasks.lookup k = some t)
    (hstep : advance w k t = some w') :
    Published w'.registry w'.heap w'.tasks ∧ Continues w w' := by
  have hallowed := h.tasks k t ht
  cases t with
  | unregister id stage =>
    cases stage with
    | closing =>
      obtain ⟨e, he, hstep⟩ := bind_eq_some_iff.1 hstep
      cases hstep
      refine h.section rfl (close_steady he) ?_ (insert_allowed ?_)
      · rintro name i hi rfl
        exact hallowed.2 name hi
      · split <;> trivial
    | releasing =>
      cases hstep
      exact h.section rfl (.endRelease w id) (fun _ _ _ => not_false) (insert_allowed trivial)
    | retiring =>
      cases hstep
      exact h.section rfl .refl (fun _ _ _ => not_false) (insert_allowed trivial)
    | scanning thread =>
      simp only [advance] at hstep
      split at hstep
      · obtain ⟨e, he, hstep⟩ := bind_eq_some_iff.1 hstep
        cases hstep
        exact h.section rfl .refl (fun _ _ _ => not_false) (setTask_allowed none (by rintro _ ⟨⟩))
      · cases hstep
  | beginShutdown remaining =>
    cases remaining with
    | nil =>
      cases hstep
      exact h.section rfl .refl (fun _ _ _ => not_false) (setTask_allowed none (by rintro _ ⟨⟩))
    | cons id remaining =>
      obtain ⟨e, he, hstep⟩ := bind_eq_some_iff.1 hstep
      cases hstep
      exact h.section rfl (.setEntry he rfl .inl) (fun _ _ _ => not_false) (insert_allowed trivial)
  | closeBroker remaining thread =>
    simp only [advance] at hstep
    split at hstep
    · cases hstep
      exact h.section rfl .refl (fun _ _ _ => not_false) (insert_allowed hallowed)
    · cases hstep
  | closeAndPoll remaining releasing drained =>
    cases releasing with
    | some id =>
      obtain ⟨e, he, hstep⟩ := bind_eq_some_iff.1 hstep
      cases hstep
      exact h.section rfl (.endRelease w id) (fun _ _ _ => not_false) (insert_allowed hallowed)
    | none =>
      cases remaining with
      | nil =>
        cases hstep
        exact h.section rfl .refl (fun _ _ _ => not_false) (setTask_allowed none (by rintro _ ⟨⟩))
      | cons id remaining =>
        obtain ⟨e, he, hstep⟩ := bind_eq_some_iff.1 hstep
        cases hstep
        refine h.section rfl (close_steady he) ?_ (insert_allowed ?_)
        · intro name i hi
          exact absurd hi (h.nothing_active hallowed name i)
        · split <;> exact hallowed
  | dropNative id =>
    cases hstep
    exact h.section rfl (.endRelease w id) (fun _ _ _ => not_false) (setTask_allowed none (by rintro _ ⟨⟩))

/-! ## A batch -/

theorem registeredIds_cons (request : CapabilityRegistrationRequest)
    (requests : List CapabilityRegistrationRequest) :
    R.registeredIds w (request :: requests) =
      IdentityKind.capability.render R.runtimeId (w.registry.sequence + 1) ::
        R.registeredIds (R.publish w request) requests := rfl

theorem registeredIds_nodup (requests : List CapabilityRegistrationRequest) :
    (R.registeredIds w requests).Nodup :=
  Nodup.map (IdentityKind.render_injective _ _) nodup_range'

theorem registeredIds_fresh (I : Inv R w) (requests : List CapabilityRegistrationRequest) :
    ∀ id ∈ R.registeredIds w requests, id ∉ w.heap := by
  intro id hid hmem
  obtain ⟨n, hn, rfl⟩ := mem_map.1 hid
  obtain ⟨m, hm, heq⟩ := I.gates.numbered _ hmem
  have hnm := IdentityKind.render_injective _ _ heq
  rw [mem_range'_1] at hn
  omega

theorem register_registered (I : Inv R w)
    (hopen : w.registry.closing = false) (hnames : (requests.map (·.descriptor.name)).Nodup) :
    Registered R requests w (requests.foldl R.publish w) := by
  induction requests generalizing w with
  | nil =>
    exact {
      entries := (append_nil _).symm
      distinct := nodup_nil
      fresh := nofun
      named := by simp
      others := fun _ _ => rfl
      kept := fun _ _ => rfl }
  | cons request requests ih =>
    have hnames' := (nodup_cons.1 (map_cons ▸ hnames))
    have ih := ih (I.published hopen request) hopen hnames'.2
    have hid : IdentityKind.capability.render R.runtimeId (w.registry.sequence + 1) ∈
        (R.publish w request).heap := (mem_insert _).2 (.inl rfl)
    exact {
      entries := by
        rw [registeredIds_cons, foldl_cons, ih.entries, append_cons]
        rfl
      distinct := registeredIds_nodup _
      fresh := registeredIds_fresh I _
      named := by
        intro i x hx
        cases i with
        | zero =>
          cases hx
          refine ⟨_, rfl, ?_, ?_⟩
          · rw [foldl_cons, ih.others _ hnames'.1]
            exact lookup_insert _
          · rw [foldl_cons, ih.kept _ hid]
            exact lookup_insert _
        | succ i => exact ih.named i x hx
      others := by
        intro name hname
        simp only [map_cons, mem_cons, not_or] at hname
        rw [foldl_cons, ih.others name hname.2]
        exact lookup_insert_ne hname.1
      kept := by
        intro id hmem
        have hne : id ≠ IdentityKind.capability.render R.runtimeId (w.registry.sequence + 1) := by
          rintro rfl
          exact I.fresh hmem
        rw [foldl_cons, ih.kept id ((mem_insert _).2 (.inr hmem))]
        exact lookup_insert_ne hne }

theorem register_published (I : Inv R w)
    (h : Published w.registry w.heap w.tasks) (hopen : w.registry.closing = false) :
    Published (requests.foldl R.publish w).registry (requests.foldl R.publish w).heap
      (requests.foldl R.publish w).tasks ∧ Continues w (requests.foldl R.publish w) := by
  induction requests generalizing w with
  | nil => exact ⟨h, .refl⟩
  | cons request requests ih =>
    obtain ⟨hpublished, hcontinues⟩ :=
      ih (I.published hopen request) (publish_published h I.fresh hopen) hopen
    exact ⟨hpublished, (publish_continues I.fresh).trans hcontinues⟩

theorem checkRegister_eq_ok (h : R.checkRegister w requests compiled = .ok ()) :
    w.registry.closing = false ∧ (requests.map (·.descriptor.name)).Nodup := by
  simp only [checkRegister, Except.bind_eq_ok, refuseIf_eq_ok] at h
  obtain ⟨-, -, -, -, -, -, -, -, -, hclosing, -, -, -, hnames, -⟩ := h
  refine ⟨by simpa using hclosing, ?_⟩
  by_contra hne
  exact hnames (.inl hne)

/-! ## The other sections -/

/-- A registration that is not active under its own name is not active at all. -/
theorem Published.unnamed (h : Published registry heap tasks) (he : heap.lookup id = some e)
    (hi : registry.active.lookup name = some i) (hne : registry.active.lookup e.descriptor.name ≠ some id) :
    i ≠ id := by
  rintro rfl
  obtain ⟨-, x, hx, hname, -⟩ := h.active name i hi
  rw [he] at hx
  cases hx
  exact hne (hname ▸ hi)

theorem unregister_published (h : Published w.registry w.heap w.tasks)
    (hr : checkUnregister w id = .ok registry) :
    Published registry w.heap (w.tasks.insert w.nextTask (.unregister id .closing)) ∧
      ∀ w' : RegistryWorld, w'.registry = registry → w'.heap = w.heap → Continues w w' := by
  simp only [checkUnregister, Except.bind_eq_ok, refuseIf_eq_ok, okOr_eq_ok] at hr
  obtain ⟨-, -, e, he, hr⟩ := hr
  split at hr
  next hactive =>
    simp only [Except.bind_eq_ok, okOr_eq_ok, checkedAdd_eq_some] at hr
    obtain ⟨revision, ⟨-, rfl⟩, hr⟩ := hr
    cases hr
    have hsub : ∀ name i, (w.registry.active.erase e.descriptor.name).lookup name = some i →
        name ≠ e.descriptor.name ∧ w.registry.active.lookup name = some i := by
      intro name i hi
      exact lookup_of_erase hi
    have hgone : ∀ name, (w.registry.active.erase e.descriptor.name).lookup name ≠ some id := by
      intro name hi
      obtain ⟨hne, hi⟩ := hsub name id hi
      obtain ⟨-, x, hx, hname, -⟩ := h.active name id hi
      rw [he] at hx
      cases hx
      exact hne hname.symm
    refine ⟨?_, ?_⟩
    · exact {
        active := fun name i hi => h.active name i (hsub name i hi).2
        retained := h.retained
        closed := by
          intro hclosing
          exact absurd hactive (h.nothing_active hclosing _ _)
        tasks := by
          intro k t ht
          rcases lookup_of_insert ht with ⟨-, rfl⟩ | ⟨-, ht⟩
          · exact ⟨mem_of_lookup he, hgone⟩
          · have hallowed := h.tasks k t ht
            cases t with
            | unregister i stage =>
              cases stage with
              | closing => exact ⟨hallowed.1, fun name hi => hallowed.2 name (hsub name i hi).2⟩
              | _ => trivial
            | _ => exact hallowed }
    · rintro w' hregistry hheap
      exact {
        bound := hheap ▸ .refl
        counted := by
          rw [hregistry]
          exact Nat.le_succ _
        shut := by simp [hregistry]
        identified := by
          intro _ heq
          rw [hregistry] at heq
          exact absurd heq (Nat.succ_ne_self _) }
  next hactive =>
    cases hr
    refine ⟨?_, ?_⟩
    · refine h.quiet .refl (fun _ _ _ => not_false) (insert_allowed ⟨mem_of_lookup he, ?_⟩)
      intro name hi
      exact h.unnamed he hi hactive rfl
    · intro w' hregistry hheap
      exact .quiet hregistry (hheap ▸ .refl)

theorem Published.shut (h : Published w.registry w.heap w.tasks)
    (hregistry : w'.registry = { w.registry with closing := true, active := ∅ })
    (hheap : w'.heap = w.heap) (htasks : w'.tasks = w.tasks.insert k t)
    (ht : t.Allowed w'.registry w.heap) :
    Published w'.registry w'.heap w'.tasks ∧ Continues w w' := by
  have hnone : ∀ name i, w'.registry.active.lookup name ≠ some i := by
    intro name i
    rw [hregistry, lookup_empty]
    exact nofun
  refine ⟨?_, ?_⟩
  · exact {
      active := fun name i hi => absurd hi (hnone name i)
      retained := by
        rw [hregistry, hheap]
        exact h.retained
      closed := fun _ => by rw [hregistry]
      tasks := by
        intro j x hx
        rw [htasks, lookup_insert_eq] at hx
        rw [hheap]
        split at hx
        · cases hx
          exact ht
        · have hallowed := h.tasks j x hx
          cases x with
          | unregister i stage =>
            cases stage with
            | closing => exact ⟨hallowed.1, fun name => hnone name i⟩
            | _ => trivial
          | closeBroker | closeAndPoll => exact congrArg RegistryState.closing hregistry
          | _ => trivial }
  · exact {
      bound := hheap ▸ .refl
      counted := hregistry ▸ le_rfl
      shut := fun _ => congrArg RegistryState.closing hregistry
      identified := by
        intro hopen
        rw [hregistry] at hopen
        cases hopen }

theorem Published.forget (h : Published registry heap tasks) (he : heap.lookup id = some e)
    (hd : e.drained = true) :
    Published { registry with entries := registry.entries.filter (· ≠ id) } heap tasks where
  active := by
    intro name i hi
    obtain ⟨hentry, x, hx, hname, hacc⟩ := h.active name i hi
    refine ⟨mem_filter.2 ⟨hentry, ?_⟩, x, hx, hname, hacc⟩
    -- a drained registration does not accept
    have hne : i ≠ id := by
      rintro rfl
      rw [he] at hx
      cases hx
      rw [(drained_iff.1 hd).1] at hacc
      cases hacc
    simpa using hne
  retained := fun i hi => h.retained i (mem_filter.1 hi).1
  closed := h.closed
  tasks := h.tasks

/-- A section of an admitted call. -/
theorem Published.same (h : Published w.registry w.heap w.tasks) (hregistry : w'.registry = w.registry)
    (hheap : Steady (fun _ => False) w.heap w'.heap) (htasks : w'.tasks = w.tasks) :
    Published w'.registry w'.heap w'.tasks ∧ Continues w w' := by
  refine h.section hregistry hheap (fun _ _ _ => not_false) ?_
  intro j t ht
  rw [htasks] at ht
  exact .inr ⟨j, ht⟩

theorem dropPermit_published {c : AdmittedCall} (h : Published w.registry w.heap w.tasks)
    (he : w.heap.lookup c.entryId = some e) :
    Published (dropPermit w k c e).registry (dropPermit w k c e).heap (dropPermit w k c e).tasks ∧
      Continues w (dropPermit w k c e) := by
  have hheap : Steady (fun _ => False) w.heap
      (w.heap.insert c.entryId { e with running := e.running - 1 }.retire) := by
    refine Steady.setEntry he ?_ ?_
    · rw [retire_descriptor]
    · rw [retire_accepting]
      exact .inl
  unfold dropPermit
  dsimp only
  split
  · exact h.section rfl hheap (fun _ _ _ => not_false) (insert_allowed trivial)
  · exact h.same rfl hheap rfl

theorem admitEntry_published (h : Published w.registry w.heap w.tasks) (he : w.heap.lookup id = some e)
    (hok : R.admitEntry w id e finalization = .ok w') :
    Published w'.registry w'.heap w'.tasks ∧ Continues w w' := by
  simp only [admitEntry, Except.bind_eq_ok, refuseIf_eq_ok] at hok
  obtain ⟨-, -, -, -, hok⟩ := hok
  cases hok
  exact h.same rfl (.setEntry he rfl .inl) rfl

theorem step_published (I : Inv R w) (h : Published w.registry w.heap w.tasks)
    (hstep : R.step w a = some w') : Published w'.registry w'.heap w'.tasks ∧ Continues w w' := by
  cases a with
  | register requests compiled =>
    simp only [step] at hstep
    split at hstep
    · cases hstep
      exact ⟨h, .refl⟩
    next hc =>
      cases hstep
      exact register_published I h (checkRegister_eq_ok hc).1
  | status id =>
    simp only [step] at hstep
    split at hstep
    · obtain ⟨e, -, rfl⟩ := map_eq_some_iff.1 hstep
      exact h.same rfl .refl rfl
    · cases hstep
      exact ⟨h, .refl⟩
  | unregister id =>
    simp only [step] at hstep
    split at hstep
    · cases hstep
      exact ⟨h, .refl⟩
    next registry hr =>
      cases hstep
      obtain ⟨hpublished, hcontinues⟩ := unregister_published h hr
      exact ⟨hpublished, hcontinues _ rfl rfl⟩
  | beginShutdown =>
    cases hstep
    exact h.shut rfl rfl rfl trivial
  | closeAndPoll =>
    cases hstep
    exact h.shut rfl rfl rfl rfl
  | forget id =>
    simp only [step] at hstep
    split at hstep
    · obtain ⟨e, he, hstep⟩ := bind_eq_some_iff.1 hstep
      split at hstep
      next hd =>
        cases hstep
        exact ⟨h.forget he hd, .refl, le_rfl, fun h => h, fun _ _ => rfl⟩
      next =>
        cases hstep
        exact ⟨h, .refl⟩
    · cases hstep
      exact ⟨h, .refl⟩
  | admission id finalization =>
    obtain ⟨e, he, hstep⟩ := bind_eq_some_iff.1 hstep
    split at hstep
    next w'' hok =>
      cases hstep
      exact admitEntry_published h he hok
    next =>
      cases hstep
      exact ⟨h, .refl⟩
  | giveUp call =>
    obtain ⟨c, -, hstep⟩ := bind_eq_some_iff.1 hstep
    split at hstep
    · cases hstep
      exact h.same rfl .refl rfl
    · cases hstep
  | dispatch call begin =>
    obtain ⟨c, -, hstep⟩ := bind_eq_some_iff.1 hstep
    obtain ⟨e, -, hstep⟩ := bind_eq_some_iff.1 hstep
    split at hstep
    · split at hstep
      · cases hstep
        exact h.same rfl .refl rfl
      · cases hstep
        exact h.same rfl .refl rfl
    · cases hstep
  | invoke call | finish call =>
    obtain ⟨c, -, hstep⟩ := bind_eq_some_iff.1 hstep
    split at hstep
    · cases hstep
      exact h.same rfl .refl rfl
    · cases hstep
  | submit call effectId caller arguments answers =>
    obtain ⟨c, -, hstep⟩ := bind_eq_some_iff.1 hstep
    obtain ⟨e, -, hstep⟩ := bind_eq_some_iff.1 hstep
    split at hstep
    · cases hstep
      exact h.same rfl .refl rfl
    · cases hstep
  | surrendered call =>
    obtain ⟨c, -, hstep⟩ := bind_eq_some_iff.1 hstep
    split at hstep
    · split at hstep
      · cases hstep
      · cases hstep
        exact h.same rfl .refl rfl
    · cases hstep
  | dropPermit call =>
    obtain ⟨c, -, hstep⟩ := bind_eq_some_iff.1 hstep
    obtain ⟨e, he, hstep⟩ := bind_eq_some_iff.1 hstep
    split at hstep
    · cases hstep
      exact dropPermit_published h he
    · cases hstep
  | broker call | turn thread answers =>
    cases hstep
    exact h.same rfl .refl rfl
  | task k =>
    obtain ⟨t, ht, hstep⟩ := bind_eq_some_iff.1 hstep
    exact advance_published h ht hstep

/-! ## Runs -/

theorem Published.new : Published RegistryWorld.new.registry RegistryWorld.new.heap
    RegistryWorld.new.tasks where
  active := nofun
  retained := nofun
  closed := nofun
  tasks := nofun

theorem published_run (I : Inv R w) (h : Published w.registry w.heap w.tasks)
    (hrun : R.run w acts = some w') : Published w'.registry w'.heap w'.tasks ∧ Continues w w' := by
  induction acts generalizing w with
  | nil =>
    cases hrun
    exact ⟨h, .refl⟩
  | cons a acts ih =>
    obtain ⟨middle, hstep, hrun⟩ := bind_eq_some_iff.1 hrun
    obtain ⟨hpublished, hcontinues⟩ := step_published I h hstep
    obtain ⟨hpublished', hcontinues'⟩ := ih (I.moves (step_moves hstep)) hpublished hrun
    exact ⟨hpublished', hcontinues.trans hcontinues'⟩

/-! ## Snapshots -/

theorem snapshot_eq_ok (h : R.snapshot w = some (.ok s)) :
    w.registry.closing = false ∧ s = ⟨R.runtimeId, w.registry.sequence, w.registry.active⟩ := by
  unfold snapshot at h
  split at h
  · cases h
  next hopen =>
    split at h
    · cases h
      exact ⟨by simpa using hopen, rfl⟩
    · cases h

theorem Published.snapshot (h : Published w.registry w.heap w.tasks) : R.snapshot w ≠ none := by
  unfold CapabilityRegistry.snapshot
  split
  · exact nofun
  · rw [if_pos]
    · exact nofun
    · intro x hx
      exact (h.active x.1 x.2 (mem_entries_iff.1 hx)).1

theorem revisionText_inj {s s' : CapabilitySnapshot} (h : s.revisionText = s'.revisionText)
    (hruntime : s.runtimeId = s'.runtimeId) : s.revision = s'.revision := by
  unfold CapabilitySnapshot.revisionText at h
  rw [hruntime, String.append_right_inj, String.append_right_inj] at h
  exact Nat.decimal_injective h

/-- Publication takes place as a whole, names lead to accepting registrations, identities stay bound
for good, and a revision names one map. -/
theorem capability_publication {R : CapabilityRegistry} {acts : List RegistryAct} {w : RegistryWorld}
    (hrun : R.run .new acts = some w) :
    (∀ requests compiled, (∃ error, R.checkRegister w requests compiled = .error error) ∧
        R.step w (.register requests compiled) = some w ∨
      ∃ w', R.step w (.register requests compiled) = some w' ∧ Registered R requests w w') ∧
    (∀ name id, w.registry.active.lookup name = some id → id ∈ w.registry.entries ∧
      (∃ e, w.heap.lookup id = some e ∧ e.descriptor.name = name ∧ e.accepting = true) ∧
      ∀ name', w.registry.active.lookup name' = some id → name' = name) ∧
    R.snapshot w ≠ none ∧
    ∀ acts' w', R.run w acts' = some w' →
      (∀ id e, w.heap.lookup id = some e →
        ∃ e', w'.heap.lookup id = some e' ∧ e'.descriptor = e.descriptor) ∧
      (∀ requests, ∀ id ∈ R.registeredIds w' requests, id ∉ w.heap) ∧
      (∀ s, R.snapshot w = some (.ok s) → ∀ name id, s.entries.lookup name = some id →
        ∃ e', w'.heap.lookup id = some e' ∧ e'.descriptor.name = name) ∧
      ∀ s s', R.snapshot w = some (.ok s) → R.snapshot w' = some (.ok s') →
        s.revisionText = s'.revisionText → s.entries = s'.entries := by
  have I : Inv R w := Inv.new.run hrun
  have h := (published_run Inv.new Published.new hrun).1
  refine ⟨?_, ?_, h.snapshot, ?_⟩
  · intro requests compiled
    simp only [step]
    cases hc : R.checkRegister w requests compiled with
    | error error => exact .inl ⟨⟨error, rfl⟩, rfl⟩
    | ok _ =>
      obtain ⟨hopen, hnames⟩ := checkRegister_eq_ok hc
      exact .inr ⟨_, rfl, register_registered I hopen hnames⟩
  · intro name id hid
    obtain ⟨hentry, e, he, hname, hacc⟩ := h.active name id hid
    refine ⟨hentry, ⟨e, he, hname, hacc⟩, ?_⟩
    intro name' hid'
    obtain ⟨-, x, hx, hname', -⟩ := h.active name' id hid'
    rw [he] at hx
    cases hx
    rw [← hname', hname]
  · intro acts' w' hrun'
    obtain ⟨h', hcontinues⟩ := published_run I h hrun'
    refine ⟨?_, ?_, ?_, ?_⟩
    · intro id e he
      obtain ⟨e', he', hdescriptor, -⟩ := hcontinues.bound id e he
      exact ⟨e', he', hdescriptor⟩
    · intro requests id hid hmem
      exact registeredIds_fresh (I.run hrun') requests id hid (hcontinues.bound.mem hmem)
    · intro s hs name id hid
      obtain ⟨-, rfl⟩ := snapshot_eq_ok hs
      obtain ⟨-, e, he, hname, -⟩ := h.active name id hid
      obtain ⟨e', he', hdescriptor, -⟩ := hcontinues.bound id e he
      refine ⟨e', he', ?_⟩
      rw [hdescriptor, hname]
    · intro s s' hs hs' htext
      obtain ⟨-, rfl⟩ := snapshot_eq_ok hs
      obtain ⟨hopen', rfl⟩ := snapshot_eq_ok hs'
      have hrevision := revisionText_inj htext rfl
      exact (hcontinues.identified hopen' hrevision.symm).symm

end

/-- After the revocation the name is free and the counter moved on. -/
theorem capability_publication_revoked : ∃ w, smallRegistry.run .new revokedActs = some w ∧
    w.registry.sequence = 2 ∧ w.registry.active.lookup "clock" = none ∧
      smallRegistry.snapshot w ≠ none := by
  obtain ⟨w, hrun, hregistry⟩ := map_eq_some_iff.1
    (show (smallRegistry.run .new revokedActs).map
      (fun w => (w.registry.sequence, w.registry.active.lookup "clock")) = some (2, none) from rfl)
  obtain ⟨-, -, hsnapshot, -⟩ := capability_publication hrun
  exact ⟨w, hrun, congrArg Prod.fst hregistry, congrArg Prod.snd hregistry, hsnapshot⟩

end CapabilityRegistry

end LuaSkills.Embedded
