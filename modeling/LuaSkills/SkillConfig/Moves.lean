import LuaSkills.SkillConfig.RoundTrip
import LuaSkills.SkillConfig.Store

/-!
# What a step of the stores does

`Move` lists the effects a step can have, one constructor for each way it ends, with what the section
has checked. Every step is one of them (`step_move`). The second half says what a transaction does to
a document.
-/

namespace LuaSkills.SkillConfig

open Function List Option Except World

variable {cached : SkillConfigSnapshot} {write : WriteCall} {failure : Option String} {skillId key : String}

/-! ## Effects of a step -/

/-- The write a phase can still fail in. -/
def Phase.failing : Phase → Option WriteCall
  | .waiting write | .locked write | .loaded write _ => some write
  | _ => none

/-- The store a step belongs to. -/
def Act.store : Act → StoreId
  | .create i | .begin i _ _ | .acquire i _ | .load i _ | .commit i _ | .install i | .finish i
  | .refresh i | .reload i _ | .replaceCache i | .drop i => i

inductive Move (linked : Linked) (path : String) (w : World) : Act → World → Prop
  | create {i : StoreId} {snapshot : SkillConfigSnapshot} : w.stores i = none →
      readSnapshotFrom linked path w.disk = .ok snapshot →
      Move linked path w (.create i) (w.setStore i ⟨snapshot, .idle⟩)
  | begin {i : StoreId} {cached : SkillConfigSnapshot} {request : WriteRequest}
      {expectedRevision : Option String} {expected : Option UInt64} :
      w.stores i = some ⟨cached, .idle⟩ → request.prepare expectedRevision = .ok expected →
      Move linked path w (.begin i request expectedRevision)
        { w.setStore i ⟨cached, .waiting ⟨w.nextCall, request, expected⟩⟩ with
          nextCall := w.nextCall + 1, log := .began w.nextCall i cached :: w.log }
  | refuse {i : StoreId} {cached : SkillConfigSnapshot} {request : WriteRequest}
      {expectedRevision : Option String} {message : String} : w.stores i = some ⟨cached, .idle⟩ →
      Move linked path w (.begin i request expectedRevision)
        { w.setStore i ⟨cached, .idle⟩ with
          lock := w.unlock i, nextCall := w.nextCall + 1,
          log := .failed w.nextCall i cached message :: .began w.nextCall i cached :: w.log }
  | fail {i : StoreId} {cached : SkillConfigSnapshot} {phase : Phase} {write : WriteCall}
      {message : String} {a : Act} : a.store = i → w.stores i = some ⟨cached, phase⟩ → phase.failing = some write →
      Move linked path w a (w.fail i ⟨cached, phase⟩ write.call message)
  | acquire {i : StoreId} {cached : SkillConfigSnapshot} {write : WriteCall} :
      w.stores i = some ⟨cached, .waiting write⟩ → w.lock = none →
      Move linked path w (.acquire i none) { w.setStore i ⟨cached, .locked write⟩ with lock := some i }
  | load {i : StoreId} {cached : SkillConfigSnapshot} {write : WriteCall}
      {disk : SkillConfigSnapshot} {failure : Option String} : w.stores i = some ⟨cached, .locked write⟩ →
      readSnapshotFrom linked path w.disk = .ok disk →
      cached.document.revision ≤ disk.document.revision →
      (∀ expected, write.expected = some expected → expected = disk.document.revision) →
      Move linked path w (.load i failure) (w.setStore i ⟨cached, .loaded write disk⟩)
  | keep {i : StoreId} {cached : SkillConfigSnapshot} {write : WriteCall}
      {disk : SkillConfigSnapshot} {document : SkillConfigDocument} {io : WriteAnswers} :
      w.stores i = some ⟨cached, .loaded write disk⟩ →
      write.request.apply disk.document = .ok (document, []) →
      Move linked path w (.commit i io) (w.setStore i ⟨cached, .committed write ⟨disk.contentDigest, document⟩
        ⟨write.request, document.revision, [], none⟩⟩)
  | replace {i : StoreId} {cached : SkillConfigSnapshot} {write : WriteCall}
      {disk : SkillConfigSnapshot} {document : SkillConfigDocument} {changedKeys : List String}
      {revision : UInt64} {io : WriteAnswers} {bytes : List UInt8} :
      w.stores i = some ⟨cached, .loaded write disk⟩ →
      write.request.apply disk.document = .ok (document, changedKeys) → changedKeys ≠ [] →
      nextRevision document.revision = .ok revision →
      writeDocumentTo linked path io { document with revision } = .ok bytes →
      Move linked path w (.commit i io)
        { w.setStore i ⟨cached, .committed write
            ⟨linked.hexSha256 bytes, { document with revision }⟩
            ⟨write.request, revision, changedKeys, io.sync⟩⟩ with
          disk := some bytes
          log := .replaced write i disk.document { document with revision } :: w.log }
  | install {i : StoreId} {cached : SkillConfigSnapshot} {write : WriteCall}
      {snapshot : SkillConfigSnapshot} {outcome : WriteOutcome} :
      w.stores i = some ⟨cached, .committed write snapshot outcome⟩ →
      Move linked path w (.install i) (w.install i write snapshot outcome)
  | finish {i : StoreId} {cached : SkillConfigSnapshot} {write : WriteCall}
      {outcome : WriteOutcome} : w.stores i = some ⟨cached, .installed write outcome⟩ →
      Move linked path w (.finish i) (w.finish i ⟨cached, .installed write outcome⟩ write outcome)
  | refresh {i : StoreId} {cached : SkillConfigSnapshot} : w.stores i = some ⟨cached, .idle⟩ →
      Move linked path w (.refresh i) (w.setStore i ⟨cached, .refreshing⟩)
  | reload {i : StoreId} {cached snapshot : SkillConfigSnapshot} {failure : Option String} :
      w.stores i = some ⟨cached, .refreshing⟩ →
      readSnapshotFrom linked path w.disk = .ok snapshot →
      Move linked path w (.reload i failure) (w.setStore i ⟨cached, .candidate snapshot⟩)
  /-- A refresh that leaves the cache as it is. -/
  | endRefresh {i : StoreId} {cached : SkillConfigSnapshot} {phase : Phase}
      {result : ConfigResult SkillConfigRefreshResult} {a : Act} : a.store = i →
      w.stores i = some ⟨cached, phase⟩ →
      (phase = .refreshing ∨ ∃ snapshot, phase = .candidate snapshot) →
      Move linked path w a (w.endRefresh i cached result)
  | replaceCache {i : StoreId} {cached snapshot : SkillConfigSnapshot} :
      w.stores i = some ⟨cached, .candidate snapshot⟩ →
      cached.document.revision ≤ snapshot.document.revision →
      Move linked path w (.replaceCache i) (w.endRefresh i snapshot (.ok ⟨snapshot.document.revision, true,
        changedSkillConfigKeys cached.document snapshot.document⟩))
  | drop {i : StoreId} {store : Store} : w.stores i = some store →
      Move linked path w (.drop i) { w with stores := update w.stores i none, lock := w.unlock i }

section
variable {linked : Linked} {path : String} {w w' : World} {i : StoreId}

theorem validateSnapshotProgression_eq_ok (h : validateSnapshotProgression current candidate source = .ok u) :
    current.document.revision ≤ candidate.document.revision := by
  simp only [validateSnapshotProgression, bind_eq_ok, refuseIf_eq_ok] at h
  obtain ⟨-, hle, -⟩ := h
  exact UInt64.not_lt.1 hle

theorem begin_move (h : w.stores i = some ⟨cached, .idle⟩) :
    Move linked path w (.begin i request expectedRevision)
      (w.begin i ⟨cached, .idle⟩ request expectedRevision) := by
  simp only [begin]
  split
  · exact .refuse h
  · next hprepare => exact .begin h hprepare

theorem acquire_move
    (h : w.stores i = some ⟨cached, .waiting write⟩)
    (hw : w.acquire i ⟨cached, .waiting write⟩ write failure = some w') :
    Move linked path w (.acquire i failure) w' := by
  cases failure with
  | some message =>
    cases hw
    exact .fail rfl h rfl
  | none =>
    simp only [acquire] at hw
    split at hw
    · next hlock =>
      cases hw
      exact .acquire h hlock
    · cases hw

theorem load_move
    (h : w.stores i = some ⟨cached, .locked write⟩) :
    Move linked path w (.load i failure) (w.load linked path i ⟨cached, .locked write⟩ write failure) := by
  simp only [load]
  split
  · exact .fail rfl h rfl
  · next disk hread =>
    simp only [readCurrent, bind_eq_ok, refuseIf_eq_ok] at hread
    obtain ⟨-, -, disk', hdisk, _, hprogress, -, hexpected, hret⟩ := hread
    cases hret
    refine .load h hdisk (validateSnapshotProgression_eq_ok hprogress) fun expected he => ?_
    simpa [he] using hexpected

theorem commit_move
    {disk : SkillConfigSnapshot} {io : WriteAnswers}
    (h : w.stores i = some ⟨cached, .loaded write disk⟩) :
    Move linked path w (.commit i io)
      (w.commit linked path i ⟨cached, .loaded write disk⟩ write disk io) := by
  simp only [commit]
  split
  · exact .fail rfl h rfl
  · next snapshot changedKeys htransact =>
    simp only [transact, bind_eq_ok] at htransact
    obtain ⟨⟨document, keys⟩, happly, hrest⟩ := htransact
    split at hrest
    · next hkeys =>
      cases hrest
      simp only at hkeys
      subst hkeys
      exact .keep h happly
    · simp only [bind_eq_ok] at hrest
      obtain ⟨_, _, _, _, hret⟩ := hrest
      cases hret
  · next snapshot changedKeys bytes htransact =>
    simp only [transact, bind_eq_ok] at htransact
    obtain ⟨⟨document, keys⟩, happly, hrest⟩ := htransact
    split at hrest
    · cases hrest
    · next hkeys =>
      simp only [bind_eq_ok] at hrest
      obtain ⟨revision, hrevision, written, hwrite, hret⟩ := hrest
      cases hret
      exact .replace h happly hkeys hrevision hwrite

theorem reload_move
    (h : w.stores i = some ⟨cached, .refreshing⟩) :
    Move linked path w (.reload i failure) (w.reload linked path i cached failure) := by
  simp only [reload]
  split
  · exact .endRefresh rfl h (Or.inl rfl)
  · next snapshot hread =>
    simp only [bind_eq_ok] at hread
    obtain ⟨-, -, hread⟩ := hread
    exact .reload h hread

theorem replaceCache_move (h : w.stores i = some ⟨cached, .candidate snapshot⟩) :
    Move linked path w (.replaceCache i) (w.replaceCache i cached snapshot) := by
  simp only [replaceCache]
  split
  · exact .endRefresh rfl h (Or.inr ⟨snapshot, rfl⟩)
  · next hprogress =>
    split
    · exact .endRefresh rfl h (Or.inr ⟨snapshot, rfl⟩)
    · exact .replaceCache h (validateSnapshotProgression_eq_ok hprogress)

theorem step_move (h : w.step linked path a = some w') : Move linked path w a w' := by
  cases a with
  | create i =>
    simp only [step, create] at h
    split at h
    · next hnone hread =>
      cases h
      exact .create hnone hread
    · cases h
  | acquire i failure =>
    simp only [step] at h
    split at h
    · next hs => exact acquire_move hs h
    · cases h
  | begin i request expectedRevision =>
    simp only [step] at h
    split at h
    · next hs => exact some.inj h ▸ begin_move hs
    · cases h
  | load i failure =>
    simp only [step] at h
    split at h
    · next hs => exact some.inj h ▸ load_move hs
    · cases h
  | commit i io =>
    simp only [step] at h
    split at h
    · next hs => exact some.inj h ▸ commit_move hs
    · cases h
  | install i =>
    simp only [step] at h
    split at h
    · next hs => exact some.inj h ▸ .install hs
    · cases h
  | finish i =>
    simp only [step] at h
    split at h
    · next hs => exact some.inj h ▸ .finish hs
    · cases h
  | refresh i =>
    simp only [step] at h
    split at h
    · next hs => exact some.inj h ▸ .refresh hs
    · cases h
  | reload i failure =>
    simp only [step] at h
    split at h
    · next hs => exact some.inj h ▸ reload_move hs
    · cases h
  | replaceCache i =>
    simp only [step] at h
    split at h
    · next hs => exact some.inj h ▸ replaceCache_move hs
    · cases h
  | drop i =>
    simp only [step] at h
    split at h
    · next hs => exact some.inj h ▸ .drop hs
    · cases h

theorem Move.other (h : Move linked path w a w') (hne : i ≠ a.store) : w'.stores i = w.stores i := by
  cases h with
  | fail ha | endRefresh ha =>
    subst ha
    exact update_of_ne hne _ _
  | _ => exact update_of_ne hne _ _

end

/-! ## Effects of a transaction -/

/-- The request gives the key of the package a value other than the one in `d`. -/
def WriteRequest.Changes (d : SkillConfigDocument) (skillId key : String) : WriteRequest → Prop
  | .set id values _ => skillId = id ∧ ∃ v, values.lookup key = some v ∧ d.value id key ≠ some v
  | .delete id k => skillId = id ∧ key = k ∧ d.value id k ≠ none

/-- A batch names at least one key. -/
def WriteRequest.Submits : WriteRequest → Prop
  | .set _ values _ => values ≠ ∅
  | .delete _ _ => True

theorem WriteRequest.submits_of_prepare {request : WriteRequest}
    (h : request.prepare expectedRevision = .ok expected) : request.Submits := by
  cases request with
  | set skillId values validateCandidate =>
    simp only [WriteRequest.prepare, bind_eq_ok, refuseIf_eq_ok, SortedMap.isEmpty_iff] at h
    obtain ⟨_, _, _, hne, -⟩ := h
    exact hne
  | delete => trivial

section
variable {l : List (String × String)} {package : SortedMap String String}

theorem setEntries_unchanged (h : (setEntries l package).2 = []) :
    (setEntries l package).1 = package ∧ ∀ e ∈ l, package.lookup e.1 = some e.2 := by
  induction l generalizing package with
  | nil => exact ⟨rfl, fun e he => nomatch he⟩
  | cons e rest ih =>
    simp only [setEntries] at h ⊢
    split at h
    · next hsame =>
      rw [if_pos hsame]
      obtain ⟨hpackage, hrest⟩ := ih h
      exact ⟨hpackage, forall_mem_cons.2 ⟨hsame, hrest⟩⟩
    · cases h

theorem setEntries_lookup (hkeys : (l.map Prod.fst).Nodup) (package : SortedMap String String)
    (key : String) :
    (setEntries l package).1.lookup key = (l.lookup key).or (package.lookup key) ∧
      (key ∈ (setEntries l package).2 ↔ ∃ v, l.lookup key = some v ∧ package.lookup key ≠ some v) := by
  induction l generalizing package with
  | nil => simp [setEntries]
  | cons e rest ih =>
    rw [map_cons, nodup_cons] at hkeys
    have hfresh : rest.lookup e.1 = none := by
      rw [lookup_eq_none_iff]
      exact fun e' he' => bne_iff_ne.2 fun heq => hkeys.1 (heq ▸ mem_map_of_mem he')
    simp only [setEntries, SortedMap.lookup_cons_eq]
    split
    · next hsame =>
      obtain ⟨hlookup, hmem⟩ := ih hkeys.2 package
      rw [hlookup, hmem]
      by_cases hk : key = e.1
      · subst hk
        simp [hfresh, hsame]
      · simp [hk]
    · next hdiff =>
      obtain ⟨hlookup, hmem⟩ := ih hkeys.2 (package.insert e.1 e.2)
      rw [mem_cons, hlookup, hmem, SortedMap.lookup_insert]
      by_cases hk : key = e.1
      · subst hk
        simp [hfresh, hdiff]
      · simp [hk]

end

section
variable {request : WriteRequest} {d d' : SkillConfigDocument} {keys : List String}

theorem apply_revision (h : request.apply d = .ok (d', keys)) :
    d'.revision = d.revision := by
  cases request with
  | set skillId values validateCandidate =>
    simp only [WriteRequest.apply, bind_eq_ok] at h
    obtain ⟨_, -, h⟩ := h
    cases h
    rfl
  | delete skillId key =>
    simp only [WriteRequest.apply] at h
    split at h
    · cases h
      rfl
    · cases h
      rfl

theorem value_insert {package : SortedMap String String} {id : String} :
    ({ d with skills := skills.insert skillId package } : SkillConfigDocument).value id key =
      if id = skillId then package.lookup key else ({ d with skills } : SkillConfigDocument).value id key := by
  simp only [SkillConfigDocument.value, SortedMap.lookup_insert]
  split <;> rfl

theorem getD_lookup :
    ((d.skills.lookup skillId).getD ∅).lookup key = d.value skillId key := by
  simp only [SkillConfigDocument.value]
  cases d.skills.lookup skillId <;> rfl

/-- The keys a transaction reports are those whose value it changes, in its own package. -/
theorem apply_keys (h : request.apply d = .ok (d', keys)) :
    (skillId = request.skillId ∧ key ∈ keys) ↔ request.Changes d skillId key := by
  cases request with
  | set id values validateCandidate =>
    simp only [WriteRequest.apply, bind_eq_ok] at h
    obtain ⟨_, -, h⟩ := h
    cases h
    rw [(setEntries_lookup values.keys_nodup _ _).2, getD_lookup]
    exact Iff.rfl
  | delete id k =>
    simp only [WriteRequest.apply] at h
    simp only [WriteRequest.Changes, SkillConfigDocument.value]
    split at h
    · next hnone =>
      cases h
      simp [hnone]
    · next items hsome =>
      cases h
      rw [hsome]
      cases hitem : items.lookup k with
      | none => simp [hitem]
      | some v => simp [hitem, WriteRequest.skillId]

theorem apply_value (h : request.apply d = .ok (d', keys))
    (hother : ¬ (skillId = request.skillId ∧ key ∈ keys)) :
    d'.value skillId key = d.value skillId key := by
  cases request with
  | set id values validateCandidate =>
    simp only [WriteRequest.apply, bind_eq_ok] at h
    obtain ⟨_, -, h⟩ := h
    cases h
    rw [value_insert]
    split
    · next heq =>
      subst heq
      obtain ⟨hlookup, hmem⟩ :=
        setEntries_lookup values.keys_nodup ((d.skills.lookup skillId).getD ∅) key
      have hnot : key ∉ (setEntries values.entries ((d.skills.lookup skillId).getD ∅)).2 :=
        fun hin => hother ⟨rfl, hin⟩
      rw [hlookup]
      cases hvalue : values.entries.lookup key with
      | none => rw [none_or, getD_lookup]
      | some v =>
        by_contra hne
        refine hnot (hmem.2 ⟨v, hvalue, fun hsame => hne ?_⟩)
        rw [getD_lookup] at hsame
        rw [some_or, hsame]
    · rfl
  | delete id k =>
    simp only [WriteRequest.apply] at h
    split at h
    · cases h
      rfl
    · next items hsome =>
      cases h
      by_cases hid : skillId = id
      · subst hid
        have hkey : items.lookup key = (items.erase k).lookup key := by
          rw [SortedMap.lookup_erase]
          split
          · next hk =>
            subst hk
            cases hitem : items.lookup key with
            | none => rfl
            | some v => exact absurd ⟨rfl, by simp [hitem]⟩ hother
          · rfl
        have hbefore : d.value skillId key = items.lookup key := by
          rw [SkillConfigDocument.value, hsome, bind_some]
        rw [hbefore, hkey]
        split
        · next hempty =>
          rw [SortedMap.isEmpty_iff.1 hempty, SkillConfigDocument.value, SortedMap.lookup_erase,
            if_pos rfl]
          rfl
        · rw [value_insert, if_pos rfl]
      · split
        · rw [SkillConfigDocument.value, SortedMap.lookup_erase, if_neg hid]
          rfl
        · rw [value_insert, if_neg hid]

/-- A transaction that changes no key leaves a valid document as it is. -/
theorem apply_unchanged (hvalid : validateSkillConfigDocument d = .ok ()) (hsubmits : request.Submits)
    (h : request.apply d = .ok (d', [])) : d' = d := by
  cases request with
  | set id values validateCandidate =>
    simp only [WriteRequest.apply, bind_eq_ok] at h
    obtain ⟨_, -, h⟩ := h
    simp only [pure_eq_ok, ok.injEq, Prod.mk.injEq] at h
    obtain ⟨rfl, hkeys⟩ := h
    obtain ⟨hpackage, hentries⟩ := setEntries_unchanged hkeys
    rw [hpackage]
    cases hlookup : d.skills.lookup id with
    | none =>
      -- a value of the batch would be one of a package that is not there
      obtain ⟨e, he⟩ : ∃ e, e ∈ values.entries := by
        refine exists_mem_of_ne_nil _ fun hnil => hsubmits ?_
        exact SortedMap.isEmpty_iff.1 (by simp [SortedMap.isEmpty, hnil])
      have := hentries e he
      rw [hlookup] at this
      cases this
    | some package => rw [getD_some, SortedMap.insert_of_lookup hlookup]
  | delete id k =>
    simp only [WriteRequest.apply] at h
    split at h
    · cases h
      rfl
    · next items hlookup =>
      simp only [ok.injEq, Prod.mk.injEq] at h
      obtain ⟨rfl, hkeys⟩ := h
      have habsent : items.lookup k = none := by
        cases hitem : items.lookup k with
        | none => rfl
        | some v => simp [hitem] at hkeys
      have hmem : (id, items) ∈ d.skills.entries := SortedMap.mem_entries_iff.2 hlookup
      have hpackages := (validateSkillConfigDocument_eq_ok.1 hvalid).2.2.2
      have hpackage := forall_of_forM_eq_ok hpackages _ hmem
      have hnonempty : items.isEmpty = false := (validatePackage_eq_ok.1 hpackage).2.1
      rw [SortedMap.erase_of_lookup_none habsent, hnonempty, if_neg Bool.false_ne_true,
        SortedMap.insert_of_lookup hlookup]

theorem nextRevision_eq_ok {next : UInt64} (h : nextRevision revision = .ok next) :
    next.toNat = revision.toNat + 1 := by
  simp only [nextRevision, bind_eq_ok, refuseIf_eq_ok] at h
  obtain ⟨-, hlast, h⟩ := h
  cases h
  have hlt : revision.toNat < 2 ^ 64 := revision.toNat_lt
  rw [UInt64.toNat_add, UInt64.toNat_one, Nat.mod_eq_of_lt (by omega)]

end

end LuaSkills.SkillConfig
