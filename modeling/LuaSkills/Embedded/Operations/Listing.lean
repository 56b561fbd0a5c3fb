import Mathlib.Data.List.Sort
import LuaSkills.Embedded.Operations.Runs

/-!
# Listing retained operations

A page shows the retained operations that were published after its cursor, in the order of publication.
Following pages to the last one shows every matching operation that is still retained then, once and in
the order of publication, whatever is admitted, converted or forgotten between the pages.
-/

open Nat

/-- The elements that pass a test, up to the last one that is taken. -/
theorem List.filter_take_split {α : Type*} {l : List α} {test : α → Bool} {k : ℕ} (hk : 0 < k)
    (h : k ≤ (l.filter test).length) : ∃ before x after, l = before ++ x :: after ∧ test x ∧
      (l.filter test).take k = (before ++ [x]).filter test := by
  induction l generalizing k with
  | nil => exact absurd (lt_of_lt_of_le hk h) (lt_irrefl _)
  | cons a l ih =>
    by_cases ha : test a
    · rw [List.filter_cons_of_pos ha] at h ⊢
      match k, hk with
      | 1, _ =>
        refine ⟨[], a, l, rfl, ha, ?_⟩
        simp [ha]
      | k + 2, _ =>
        obtain ⟨before, x, after, rfl, hx, htake⟩ := ih (succ_pos k) (le_of_succ_le_succ h)
        refine ⟨a :: before, x, after, rfl, hx, ?_⟩
        rw [List.take_succ_cons, htake, List.cons_append, List.filter_cons_of_pos ha]
    · rw [List.filter_cons_of_neg ha] at h ⊢
      obtain ⟨before, x, after, rfl, hx, htake⟩ := ih hk h
      refine ⟨a :: before, x, after, rfl, hx, ?_⟩
      rw [htake, List.cons_append, List.filter_cons_of_neg ha]

namespace LuaSkills.Embedded

open AList Option Except EmbeddedError

structure OperationPage where
  operationIds : List String
  afterOperationId : Option String
  hasMore : Bool
deriving DecidableEq

def RetainedOperation.publication (operation : RetainedOperation) : ℕ × String :=
  (operation.publicationSequence, operation.id)

namespace OperationRegistry

/-- Compares an optional pool with the original context of an operation. -/
def matchesPool (operation : RetainedOperation) : Option String → Bool
  | none => true
  | some poolId =>
    match operation.snapshot.context with
    | .module context => context.poolId = poolId
    | .unbound => false

/-- The publication number of a cursor; zero without one. -/
def checkCursor (s : OperationRegistryState) (poolId afterOperationId : Option String) :
    EmbeddedResult ℕ :=
  match afterOperationId with
  | none => .ok 0
  | some id => do
    let operation ← okOr (s.records.lookup id) (notFound "operation page cursor is not retained")
    refuseIf (¬ matchesPool operation poolId)
      (invalid "operation page cursor does not match the pool filter")
    return operation.publicationSequence

/-- The matching operations published after `after`, in the order of publication. -/
def recordsAfter (s : OperationRegistryState) (poolId : Option String) (after : ℕ) :
    List RetainedOperation :=
  (s.records.values.filter fun operation =>
      after < operation.publicationSequence && matchesPool operation poolId).insertionSort
    fun a b => a.publicationSequence ≤ b.publicationSequence

/-- The page of the `limit` first ones. -/
def pageOf (records : List RetainedOperation) (afterOperationId : Option String) (limit : ℕ) :
    OperationPage :=
  let operationIds := (records.take limit).map RetainedOperation.id
  { operationIds
    afterOperationId := operationIds.getLast?.or afterOperationId
    hasMore := limit < records.length }

def list (Q : OperationRegistry) (s : OperationRegistryState) (poolId afterOperationId : Option String)
    (limit : ℕ) : EmbeddedResult OperationPage := do
  refuseIf (limit = 0 ∨ limit > Q.maxOperations)
    (invalid "operation page limit exceeds retained operation budget")
  refuseIf (poolId.any unnamed) (invalid "operation pool filter is invalid")
  let after ← checkCursor s poolId afterOperationId
  return pageOf (recordsAfter s poolId after) afterOperationId limit

/-- Following pages from a cursor to the last one, with calls between them: what the pages show, and the
world in which the last one was taken. -/
inductive Enumeration (R : ℕ → OperationRegistry) (g : ℕ) (poolId : Option String) (limit : ℕ) :
    OperationsWorld → Option String → List String → OperationsWorld → Prop where
  | last {w : OperationsWorld} {cursor : Option String} {page : OperationPage} :
    (R g).list (w.states g) poolId cursor limit = .ok page → page.hasMore = false →
    Enumeration R g poolId limit w cursor page.operationIds w
  | next {w v : OperationsWorld} {cursor : Option String} {page : OperationPage} {calls : List Call}
    {ids : List String} :
    (R g).list (w.states g) poolId cursor limit = .ok page → page.hasMore = true →
    Enumeration R g poolId limit (runFrom R w calls) page.afterOperationId ids v →
    Enumeration R g poolId limit w cursor (page.operationIds ++ ids) v

variable {R : ℕ → OperationRegistry} {Q : OperationRegistry} {w v : OperationsWorld}
  {s s' : OperationRegistryState} {g limit n : ℕ} {poolId cursor : Option String} {id : String}
  {page : OperationPage} {operation : RetainedOperation} {x : ℕ × String} {ids : List String}
  {upTo : List (ℕ × String)}

/-! ## One page -/

def retains (s : OperationRegistryState) (poolId : Option String) (x : ℕ × String) : Bool :=
  (s.records.lookup x.2).any (matchesPool · poolId)

/-- The publications after `n` that are still retained and match. -/
def due (s : OperationRegistryState) (poolId : Option String) (n : ℕ) : List (ℕ × String) :=
  (s.published.drop n).filter (retains s poolId)

section
variable (B : Books Q s)
include B

/-- The publication of number `i + 1` is the one at position `i`. -/
theorem Books.published_number (h : i < s.published.length) : s.published[i].1 = i + 1 := by
  have hlen : i < s.publicationSequence := by
    have := congrArg List.length B.ordered
    simp only [List.length_map, List.length_range] at this
    exact this ▸ h
  have := congrArg (·[i]?) B.ordered
  simp only [List.getElem?_map, List.getElem?_range hlen, List.getElem?_eq_getElem h, map_some,
    some.injEq] at this
  exact this

theorem Books.mem_drop_published : x ∈ s.published.drop n ↔ x ∈ s.published ∧ n < x.1 := by
  rw [List.mem_drop_iff_getElem]
  constructor
  · rintro ⟨i, hi, rfl⟩
    rw [B.published_number]
    exact ⟨List.getElem_mem _, by omega⟩
  · rintro ⟨hx, hn⟩
    obtain ⟨i, hi, rfl⟩ := List.mem_iff_getElem.1 hx
    rw [B.published_number hi] at hn
    refine ⟨i - n, by omega, ?_⟩
    congr 1
    omega

theorem Books.publication_eq (h : s.records.lookup id = some operation) (hx : x ∈ s.published)
    (hid : x.2 = id) : x = operation.publication := by
  obtain ⟨ho, hmem⟩ := B.records id operation h
  have := List.inj_on_of_nodup_map B.distinct hx hmem hid
  rw [this, RetainedOperation.publication, ho]

theorem Books.mem_due : x ∈ due s poolId n ↔ ∃ operation, s.records.lookup x.2 = some operation ∧
    x = operation.publication ∧ n < operation.publicationSequence ∧ matchesPool operation poolId := by
  rw [due, List.mem_filter, B.mem_drop_published, retains, any_eq_true]
  constructor
  · rintro ⟨⟨hx, hn⟩, operation, ho, hm⟩
    obtain rfl := B.publication_eq ho hx rfl
    exact ⟨operation, ho, rfl, hn, hm⟩
  · rintro ⟨operation, ho, rfl, hn, hm⟩
    obtain ⟨-, hmem⟩ := B.records _ operation ho
    exact ⟨⟨hmem, hn⟩, operation, ho, hm⟩

theorem Books.nodup_due : (due s poolId n).Nodup :=
  ((B.distinct.of_map _).sublist (List.drop_sublist _ _)).filter _

theorem Books.nodup_values : (s.records.values.map RetainedOperation.id).Nodup := by
  have hkeys : s.records.values.map RetainedOperation.id = s.records.keys := by
    rw [values, keys, List.keys, List.map_map]
    refine List.map_congr_left fun e he => ?_
    exact (B.records e.1 e.2 (mem_entries_iff.1 he)).1
  rw [hkeys]
  exact s.records.keys_nodup

theorem Books.recordsAfter_eq (poolId : Option String) (n : ℕ) :
    (recordsAfter s poolId n).map RetainedOperation.publication = due s poolId n := by
  have hperm := List.perm_insertionSort
    (fun a b : RetainedOperation => a.publicationSequence ≤ b.publicationSequence)
    (s.records.values.filter fun operation =>
      n < operation.publicationSequence && matchesPool operation poolId)
  have hmem : ∀ x, x ∈ (recordsAfter s poolId n).map RetainedOperation.publication ↔ x ∈ due s poolId n := by
    intro x
    rw [B.mem_due, List.mem_map]
    constructor
    · rintro ⟨operation, ho, rfl⟩
      have ho := List.mem_filter.1 (hperm.mem_iff.1 ho)
      obtain ⟨id, hid⟩ := mem_values_iff.1 ho.1
      obtain rfl := (B.records id operation hid).1
      simp only [Bool.and_eq_true, decide_eq_true_eq] at ho
      exact ⟨operation, hid, rfl, ho.2.1, ho.2.2⟩
    · rintro ⟨operation, ho, rfl, hn, hm⟩
      refine ⟨operation, hperm.mem_iff.2 (List.mem_filter.2 ⟨?_, ?_⟩), rfl⟩
      · exact mem_values_iff.2 ⟨_, ho⟩
      · simp only [Bool.and_eq_true, decide_eq_true_eq]
        exact ⟨hn, hm⟩
  have hnodup : ((recordsAfter s poolId n).map RetainedOperation.publication).Nodup := by
    refine List.Nodup.of_map Prod.snd ?_
    rw [List.map_map]
    refine ((hperm.map _).nodup_iff).2 ?_
    exact B.nodup_values.sublist (List.filter_sublist.map _)
  refine @List.Perm.eq_of_pairwise _ (fun x y => x.1 ≤ y.1) _ _ ?_ ?_ ?_
    ((List.perm_ext_iff_of_nodup hnodup B.nodup_due).2 hmem)
  · intro x y hx hy hxy hyx
    obtain ⟨hx, -⟩ := B.mem_drop_published.1 (List.mem_of_mem_filter ((hmem x).1 hx))
    obtain ⟨hy, -⟩ := B.mem_drop_published.1 (List.mem_of_mem_filter hy)
    exact B.published_inj hx hy (le_antisymm hxy hyx)
  · have : Std.Total fun a b : RetainedOperation => a.publicationSequence ≤ b.publicationSequence :=
      ⟨fun a b => le_total _ _⟩
    have : IsTrans RetainedOperation fun a b => a.publicationSequence ≤ b.publicationSequence :=
      ⟨fun a b c => le_trans⟩
    exact List.pairwise_map.2 (List.pairwise_insertionSort _ _)
  · refine (B.pairwise_published.imp fun h => le_of_lt h).sublist ?_
    exact List.filter_sublist.trans (List.drop_sublist _ _)

end

def cursorSequence (s : OperationRegistryState) (cursor : Option String) : ℕ :=
  ((cursor.bind s.records.lookup).map RetainedOperation.publicationSequence).getD 0

theorem checkCursor_ok (h : checkCursor s poolId cursor = .ok n) : n = cursorSequence s cursor := by
  cases cursor with
  | none =>
    cases h
    rfl
  | some id =>
    simp only [checkCursor, bind_eq_ok, okOr_eq_ok, refuseIf_eq_ok] at h
    obtain ⟨operation, ho, _, -, h⟩ := h
    cases h
    simp [cursorSequence, ho]

theorem list_ok (B : Books Q s) (h : Q.list s poolId cursor limit = .ok page) :
    let shown := due s poolId (cursorSequence s cursor)
    0 < limit ∧ page.operationIds = (shown.take limit).map Prod.snd ∧
      page.afterOperationId = page.operationIds.getLast?.or cursor ∧
      (page.hasMore = true ↔ limit < shown.length) := by
  simp only [list, bind_eq_ok, refuseIf_eq_ok] at h
  obtain ⟨_, hl, _, -, n, hn, h⟩ := h
  obtain rfl := checkCursor_ok hn
  cases h
  have heq := B.recordsAfter_eq poolId (cursorSequence s cursor)
  refine ⟨Nat.pos_of_ne_zero fun h0 => hl (.inl h0), ?_, rfl, ?_⟩
  · rw [← heq, ← List.map_take, List.map_map]
    rfl
  · rw [← heq, List.length_map]
    exact decide_eq_true_iff

theorem list_of_cursor (hl : 0 < limit ∧ limit ≤ Q.maxOperations) (hp : poolId.any unnamed = false)
    (hc : ∀ id ∈ cursor, ∃ operation, s.records.lookup id = some operation ∧ matchesPool operation poolId) :
    ∃ page, Q.list s poolId cursor limit = .ok page := by
  have hcursor : ∃ n, checkCursor s poolId cursor = .ok n := by
    cases cursor with
    | none => exact ⟨0, rfl⟩
    | some id =>
      obtain ⟨operation, ho, hm⟩ := hc id rfl
      have hmatch := refuseIf_eq_ok (u := ())
        (e := invalid "operation page cursor does not match the pool filter") |>.2 (not_not.2 hm)
      exact ⟨operation.publicationSequence, bind_eq_ok.2 ⟨operation, okOr_eq_ok.2 ho,
        bind_eq_ok.2 ⟨(), hmatch, rfl⟩⟩⟩
  obtain ⟨n, hn⟩ := hcursor
  refine ⟨_, bind_eq_ok.2 ⟨(), refuseIf_eq_ok.2 ?_, bind_eq_ok.2 ⟨(), refuseIf_eq_ok.2 ?_,
    bind_eq_ok.2 ⟨n, hn, rfl⟩⟩⟩⟩
  · rintro (h | h) <;> omega
  · rw [hp]
    exact Bool.false_ne_true

/-! ## Between pages -/

/-- Publications stay in the log, and a record that was published before is an old one. -/
structure Onward (s s' : OperationRegistryState) : Prop where
  published : s.published <+: s'.published
  records : ∀ id operation, s'.records.lookup id = some operation → id ∈ s.published.map Prod.snd →
    ∃ operation₀, s.records.lookup id = some operation₀ ∧
      operation.publicationSequence = operation₀.publicationSequence ∧
      operation.snapshot.context = operation₀.snapshot.context

theorem Onward.refl (s : OperationRegistryState) : Onward s s :=
  ⟨List.prefix_refl _, fun _ operation h _ => ⟨operation, h, rfl, rfl⟩⟩

theorem Onward.of_records (hp : s'.published = s.published)
    (hr : ∀ id operation, s'.records.lookup id = some operation →
      ∃ operation₀, s.records.lookup id = some operation₀ ∧
        operation.publicationSequence = operation₀.publicationSequence ∧
        operation.snapshot.context = operation₀.snapshot.context) : Onward s s' :=
  ⟨hp ▸ List.prefix_refl _, fun id operation h _ => hr id operation h⟩

theorem Onward.trans (h : Onward s₁ s₂) (h' : Onward s₂ s₃) : Onward s₁ s₃ where
  published := h.published.trans h'.published
  records id operation ho hid := by
    have hid' : id ∈ s₂.published.map Prod.snd := (h.published.map Prod.snd).subset hid
    obtain ⟨operation₁, h₁, hseq₁, hctx₁⟩ := h'.records id operation ho hid'
    obtain ⟨operation₀, h₀, hseq₀, hctx₀⟩ := h.records id operation₁ h₁ hid
    exact ⟨operation₀, h₀, hseq₁.trans hseq₀, hctx₁.trans hctx₀⟩

/-- The registry `g` moves on, the others stay. -/
theorem Onward.setState (h : Onward (w.states g) s') (i : ℕ) :
    Onward (w.states i) ((w.setState g s').states i) := by
  by_cases hi : i = g
  · subst hi
    simpa only [OperationsWorld.setState, Function.update_self] using h
  · simpa only [OperationsWorld.setState, Function.update_of_ne hi] using Onward.refl _

/-- A publication under a new identity. -/
theorem Onward.publish {p : OperationAdmission} {control : ℕ} {fresh : Bool}
    (hnew : p.id ∉ s.published.map Prod.snd) : Onward s (publish s p control fresh) where
  published := List.prefix_append _ _
  records id operation ho hid := by
    have hne : id ≠ p.id := fun heq => hnew (heq ▸ hid)
    simp only [OperationRegistry.publish, lookup_insert_ne hne] at ho
    exact ⟨operation, ho, rfl, rfl⟩

theorem Onward.admitWithReservation (I : Inv R w) {control : ℕ}
    {reservation : Option (ℕ × OperationReservation)}
    (hr : ∀ x ∈ reservation, w.reservations.lookup x.1 = some x.2)
    (makeContext : String → EmbeddedResult OperationContext) (i : ℕ) :
    Onward (w.states i) (((R g).admitWithReservation g w control reservation makeContext).1.states i) := by
  simp only [OperationRegistry.admitWithReservation]
  split
  · exact .refl _
  · next p hp =>
    split
    · exact .refl _
    · cases reservation with
      | none =>
        obtain ⟨-, -, -, hid, -⟩ := prepareAdmission_ordinary hp
        have B := I.books g
        exact Onward.setState (.publish fun hmem => hid ▸ B.fresh <| B.allocated hmem) i
      | some owned =>
        obtain ⟨k, owned⟩ := owned
        obtain ⟨ha, hg, -, hid, -⟩ := prepareAdmission_reserved hp
        have H := I.held k owned (hr _ rfl) ha
        exact Onward.setState (.publish (hid ▸ hg ▸ H.unpublished)) i

theorem Onward.perform (I : Inv R w) (call : Call) (i : ℕ) :
    Onward (w.states i) ((perform R w call).1.states i) := by
  cases call with
  | admitContext g control checked makeContext =>
    simp only [OperationRegistry.perform, OperationRegistry.admitContext, Prod.map]
    split
    · exact .refl _
    · exact .admitWithReservation I (fun _ h => absurd h (not_mem_none _)) makeContext i
  | reserveContext g makeContext =>
    simp only [OperationRegistry.perform, OperationRegistry.reserveContext, Prod.map]
    split
    · exact .refl _
    · next sequence id context _ =>
      have h : Onward (w.states g) (allocate (w.states g) sequence id) :=
        .of_records rfl fun _ operation h => ⟨operation, h, rfl, rfl⟩
      exact h.setState i
  | admitReserved g k control =>
    simp only [OperationRegistry.perform]
    split
    · exact .refl _
    · next owned hk =>
      refine .admitWithReservation I ?_ _ i
      rintro x ⟨⟩
      exact hk
  | dropReservation k =>
    simp only [OperationRegistry.perform]
    split
    · exact .refl _
    · next owned hk =>
      simp only [OperationRegistry.dropReservation]
      split
      · refine Onward.setState (w := { w with reservations := _ }) (g := owned.state) ?_ i
        exact .of_records rfl fun _ operation h => ⟨operation, h, rfl, rfl⟩
      · exact .refl _
  | forget g id =>
    simp only [OperationRegistry.perform, OperationRegistry.forget]
    split
    · exact .refl _
    · have h : Onward (w.states g) { w.states g with records := (w.states g).records.erase id } :=
        .of_records rfl fun _ operation h => ⟨operation, (lookup_of_erase h).2, rfl, rfl⟩
      exact h.setState i
  | evolve g id snapshot =>
    have h : Onward (w.states g) (OperationRegistry.evolve (w.states g) id snapshot) := by
      refine .of_records rfl fun _ operation h => ?_
      obtain ⟨operation₀, h₀, -, hseq, hctx⟩ := lookup_evolve h
      exact ⟨operation₀, h₀, hseq, hctx⟩
    exact h.setState i
  | useControl control =>
    simp only [OperationRegistry.perform]
    split <;> exact .refl _

theorem Onward.runFrom (I : Inv R w) (calls : List Call) (i : ℕ) :
    Onward (w.states i) ((runFrom R w calls).states i) := by
  induction calls generalizing w with
  | nil => exact .refl _
  | cons call calls ih => exact (Onward.perform I call i).trans (ih (I.perform call))

/-! ## Enumerations -/

theorem matchesPool_congr {operation₀ : RetainedOperation}
    (h : operation.snapshot.context = operation₀.snapshot.context) :
    matchesPool operation poolId = matchesPool operation₀ poolId := by
  simp only [matchesPool, h]

theorem Books.le_length (B : Books Q s) (hx : x ∈ s.published) : x.1 ≤ s.published.length := by
  obtain ⟨i, hi, rfl⟩ := List.mem_iff_getElem.1 hx
  rw [B.published_number hi]
  exact hi

/-- A full page ends at the publication `x`: it shows what is due up to there, and the rest is due after
it. -/
structure PageEnd (s : OperationRegistryState) (poolId : Option String) (n limit : ℕ) (x : ℕ × String)
    (upTo : List (ℕ × String)) : Prop where
  split : s.published.drop n = upTo ++ s.published.drop x.1
  shown : (due s poolId n).take limit = upTo.filter (retains s poolId)
  last : ((due s poolId n).take limit).getLast? = some x
  mem : x ∈ s.published
  le : n ≤ s.published.length

theorem exists_pageEnd (B : Books Q s) (hl : 0 < limit) (h : limit ≤ (due s poolId n).length) :
    ∃ x upTo, PageEnd s poolId n limit x upTo := by
  obtain ⟨before, x, after, heq, hx, htake⟩ := List.filter_take_split hl h
  have hi : (s.published.drop n)[before.length]? = some x := by
    rw [heq, List.getElem?_append_right (Nat.le_refl _), Nat.sub_self]
    rfl
  rw [List.getElem?_drop] at hi
  obtain ⟨hlt, hget⟩ := List.getElem?_eq_some_iff.1 hi
  have hnum : x.1 = n + (before.length + 1) := by
    rw [← hget, B.published_number hlt]
    omega
  refine ⟨x, before ++ [x], ?_, htake, ?_, hget ▸ List.getElem_mem hlt, by omega⟩
  · rw [hnum, ← List.drop_drop, heq, List.append_cons, List.drop_left' (by simp)]
  · rw [due, htake, List.filter_append, List.filter_cons_of_pos hx, List.filter_nil]
    exact List.getLast?_concat

/-- Later publications are due after the page. -/
theorem PageEnd.onward (P : PageEnd s poolId n limit x upTo) (B : Books Q s) (O : Onward s s') :
    s'.published.drop n = upTo ++ s'.published.drop x.1 := by
  obtain ⟨t, ht⟩ := O.published
  rw [← ht, List.drop_append_of_le_length P.le, List.drop_append_of_le_length (B.le_length P.mem), P.split,
    List.append_assoc]

/-- The page that an enumeration takes first. -/
theorem Enumeration.first (E : Enumeration R g poolId limit w cursor ids v) :
    ∃ page, (R g).list (w.states g) poolId cursor limit = .ok page := by
  cases E with
  | last h => exact ⟨_, h⟩
  | next h => exact ⟨_, h⟩

/-- A cursor that is accepted stands for its publication. -/
theorem cursorSequence_eq (B : Books Q s) (hx : x ∈ s.published)
    (h : Q.list s poolId (some x.2) limit = .ok page) : cursorSequence s (some x.2) = x.1 := by
  simp only [list, checkCursor, bind_eq_ok, okOr_eq_ok] at h
  obtain ⟨_, -, _, -, n, ⟨operation, ho, -⟩, -⟩ := h
  have heq := B.publication_eq ho hx rfl
  simp only [cursorSequence, bind_some, ho, map_some, getD_some]
  rw [heq, RetainedOperation.publication]

theorem Enumeration.shows (E : Enumeration R g poolId limit w cursor ids v) (I : Inv R w) :
    Inv R v ∧ Onward (w.states g) (v.states g) ∧
    ids.Sublist (((v.states g).published.drop (cursorSequence (w.states g) cursor)).map Prod.snd) ∧
    ∀ x ∈ due (v.states g) poolId (cursorSequence (w.states g) cursor), x.2 ∈ ids := by
  induction E with
  | @last w cursor page h hmore =>
    obtain ⟨-, hids, -, hiff⟩ := list_ok (I.books g) h
    have hall : ¬ limit < (due (w.states g) poolId (cursorSequence (w.states g) cursor)).length := by
      rw [← hiff, hmore]
      exact Bool.false_ne_true
    rw [List.take_of_length_le (not_lt.1 hall)] at hids
    rw [hids]
    exact ⟨I, .refl _, List.filter_sublist.map _, fun x hx => List.mem_map_of_mem hx⟩
  | @next w v cursor page calls ids h hmore E ih =>
    obtain ⟨hl, hids, hafter, hiff⟩ := list_ok (I.books g) h
    have B := I.books g
    have J : Inv R (OperationRegistry.runFrom R w calls) := I.runFrom calls
    have O := Onward.runFrom I calls g
    obtain ⟨x, upTo, P⟩ := exists_pageEnd B hl (le_of_lt (hiff.1 hmore))
    have hcursor : page.afterOperationId = some x.2 := by
      rw [hafter, hids, List.getLast?_map, P.last]
      rfl
    rw [hcursor] at E ih
    obtain ⟨page', hpage⟩ := E.first
    obtain ⟨V, O', hsub, hdue⟩ := ih J
    rw [cursorSequence_eq (J.books g) (O.published.subset P.mem) hpage] at hsub hdue
    have hsplit := P.onward B (O.trans O')
    refine ⟨V, O.trans O', ?_, fun y hy => ?_⟩
    · rw [hsplit, hids, P.shown, List.map_append]
      exact (List.filter_sublist.map _).append hsub
    · rw [due, hsplit, List.filter_append, List.mem_append] at hy
      rcases hy with hy | hy
      · -- published up to the end of the page and still retained, hence retained then
        obtain ⟨hmem, hret⟩ := List.mem_filter.1 hy
        obtain ⟨operation, ho, hm⟩ := (any_eq_true _ _).1 hret
        have hold : y ∈ (w.states g).published := by
          refine List.mem_of_mem_drop (P.split ▸ List.mem_append_left _ hmem)
        obtain ⟨operation₀, h₀, -, hctx⟩ := (O.trans O').records y.2 operation ho (List.mem_map_of_mem hold)
        refine List.mem_append_left _ ?_
        rw [hids, P.shown]
        refine List.mem_map_of_mem (List.mem_filter.2 ⟨hmem, ?_⟩)
        exact (any_eq_true _ _).2 ⟨operation₀, h₀, matchesPool_congr hctx ▸ hm⟩
      · exact List.mem_append_right _ (hdue y hy)

/-- More is announced exactly when something due is not shown. -/
theorem hasMore_iff (B : Books Q s) (h : Q.list s poolId cursor limit = .ok page) :
    page.hasMore = true ↔ ∃ id operation, s.records.lookup id = some operation ∧
      matchesPool operation poolId ∧ cursorSequence s cursor < operation.publicationSequence ∧
      id ∉ page.operationIds := by
  obtain ⟨-, hids, -, hiff⟩ := list_ok B h
  rw [hiff, hids]
  constructor
  · intro hlt
    have hmem := List.getElem_mem hlt
    obtain ⟨operation, ho, -, hn, hm⟩ := B.mem_due.1 hmem
    refine ⟨_, operation, ho, hm, hn, fun hin => ?_⟩
    obtain ⟨y, hy, heq⟩ := List.mem_map.1 hin
    obtain ⟨j, hj, rfl⟩ := List.mem_take_iff_getElem.1 hy
    -- the publications of a page have different identities
    have hp := List.mem_of_mem_drop (List.mem_of_mem_filter hmem)
    have hq := List.mem_of_mem_drop (List.mem_of_mem_filter (List.mem_of_mem_take hy))
    have hsame := List.inj_on_of_nodup_map B.distinct hq hp heq
    have := (List.Nodup.getElem_inj_iff B.nodup_due).1 hsame
    omega
  · rintro ⟨id, operation, ho, hm, hn, hnot⟩
    by_contra hle
    rw [List.take_of_length_le (not_lt.1 hle)] at hnot
    have hid := (B.records id operation ho).1
    refine hnot (List.mem_map.2 ⟨operation.publication, B.mem_due.2 ⟨operation, ?_, rfl, hn, hm⟩, hid⟩)
    rw [RetainedOperation.publication, hid]
    exact ho

theorem mem_operationIds (B : Books Q s) (h : Q.list s poolId cursor limit = .ok page)
    (hid : id ∈ page.operationIds) :
    ∃ operation, s.records.lookup id = some operation ∧ matchesPool operation poolId := by
  obtain ⟨-, hids, -⟩ := list_ok B h
  rw [hids] at hid
  obtain ⟨y, hy, rfl⟩ := List.mem_map.1 hid
  obtain ⟨operation, ho, -, -, hm⟩ := B.mem_due.1 (List.mem_of_mem_take hy)
  exact ⟨operation, ho, hm⟩

theorem mem_afterOperationId (B : Books Q s) (h : Q.list s poolId cursor limit = .ok page)
    (hid : id ∈ page.afterOperationId) :
    ∃ operation, s.records.lookup id = some operation ∧ matchesPool operation poolId := by
  obtain ⟨-, -, hafter, -⟩ := list_ok B h
  rw [mem_def, hafter] at hid
  rcases or_eq_some_iff.1 hid with hlast | ⟨-, hcursor⟩
  · exact mem_operationIds B h (List.mem_of_getLast? hlast)
  · subst hcursor
    simp only [list, checkCursor, bind_eq_ok, okOr_eq_ok, refuseIf_eq_ok, not_not] at h
    obtain ⟨_, -, _, -, n, ⟨operation, ho, _, hm, -⟩, -⟩ := h
    exact ⟨operation, ho, hm⟩

/-- A returned cursor is accepted as long as it is retained. -/
theorem list_again (I : Inv R w) (hl : 0 < limit ∧ limit ≤ (R g).maxOperations)
    (hp : poolId.any unnamed = false) (h : (R g).list (w.states g) poolId cursor limit = .ok page)
    (calls : List Call) (hkept : ∀ id ∈ page.afterOperationId, id ∈ ((runFrom R w calls).states g).records) :
    ∃ page', (R g).list ((runFrom R w calls).states g) poolId page.afterOperationId limit = .ok page' := by
  refine list_of_cursor hl hp fun id hid => ?_
  obtain ⟨operation, ho⟩ := mem_iff_lookup.1 (hkept id hid)
  obtain ⟨operation₁, h₁, hm⟩ := mem_afterOperationId (I.books g) h hid
  have hpub := List.mem_map_of_mem (f := Prod.snd) ((I.books g).records id operation₁ h₁).2
  obtain ⟨operation₀, h₀, -, hctx⟩ := (Onward.runFrom I calls g).records id operation ho hpub
  cases h₀.symm.trans h₁
  exact ⟨operation, ho, matchesPool_congr hctx ▸ hm⟩

/-- Listing enumerates. Following the pages from no cursor to one without more shows publications in
their strict order, each identity once, and everything that matches and is retained when the last page
is taken, whatever happened between the pages. A page shows at most `limit` retained matching operations
and announces more exactly when it leaves one out; a page can be taken as long as its cursor, if it has
one, is retained. -/
theorem listing_enumerates (R : ℕ → OperationRegistry) (calls : List Call) (g : ℕ) (poolId : Option String)
    (limit : ℕ) :
    let w := run R calls
    (∀ ids v, Enumeration R g poolId limit w none ids v →
      (∃ publications : List (ℕ × String), publications.map Prod.snd = ids ∧ publications.Sublist (v.states g).published ∧
        publications.Pairwise fun x y => x.1 < y.1) ∧ ids.Nodup ∧
      ∀ id operation, (v.states g).records.lookup id = some operation → matchesPool operation poolId →
        id ∈ ids) ∧
    (∀ cursor page, (R g).list (w.states g) poolId cursor limit = .ok page →
      page.operationIds.length ≤ limit ∧
      (∀ id ∈ page.operationIds, ∃ operation, (w.states g).records.lookup id = some operation ∧
        matchesPool operation poolId) ∧
      (page.hasMore = true ↔ ∃ id operation, (w.states g).records.lookup id = some operation ∧
        matchesPool operation poolId ∧ cursorSequence (w.states g) cursor < operation.publicationSequence ∧
        id ∉ page.operationIds)) ∧
    (0 < limit ∧ limit ≤ (R g).maxOperations → poolId.any unnamed = false →
      (∃ page, (R g).list (w.states g) poolId none limit = .ok page) ∧
      ∀ cursor page, (R g).list (w.states g) poolId cursor limit = .ok page → ∀ more,
        (∀ id ∈ page.afterOperationId, id ∈ ((runFrom R w more).states g).records) →
        ∃ page', (R g).list ((runFrom R w more).states g) poolId page.afterOperationId limit = .ok page') := by
  intro w
  have I : Inv R w := .run R calls
  refine ⟨fun ids v E => ?_, fun cursor page h => ⟨?_, fun id => mem_operationIds (I.books g) h,
    hasMore_iff (I.books g) h⟩, fun hl hp => ⟨list_of_cursor hl hp fun id h => absurd h (not_mem_none id),
      fun cursor page h more => list_again I hl hp h more⟩⟩
  · obtain ⟨V, -, hsub, hall⟩ := E.shows I
    have B := V.books g
    rw [show cursorSequence (w.states g) none = 0 from rfl, List.drop_zero] at hsub
    obtain ⟨publications, hp, rfl⟩ := List.sublist_map_iff.1 hsub
    refine ⟨⟨publications, rfl, hp, B.pairwise_published.sublist hp⟩, B.distinct.sublist hsub, ?_⟩
    intro id operation ho hm
    obtain ⟨hid, hmem⟩ := B.records id operation ho
    have hdue : operation.publication ∈ due (v.states g) poolId 0 := by
      refine B.mem_due.2 ⟨operation, ?_, rfl, ?_, hm⟩
      · rwa [RetainedOperation.publication, hid]
      · have := (B.mem_drop_published (n := 0)).1 hmem
        exact this.2
    have := hall _ hdue
    rwa [RetainedOperation.publication, hid] at this
  · obtain ⟨-, hids, -⟩ := list_ok (I.books g) h
    rw [hids, List.length_map]
    exact List.length_take_le _ _

end OperationRegistry

end LuaSkills.Embedded
