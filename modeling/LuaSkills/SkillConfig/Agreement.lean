import LuaSkills.SkillConfig.Runs
import LuaSkills.SkillConfig.Service

/-!
# What is written is what is read

A batch is stored in its normal form, and a normal form is read back as it is. The keys of the batch
read as they were written; the others read as before in the file that the transaction read.
-/

namespace LuaSkills.SkillConfig

open Function List Option Except World

variable {key : String} {stored : SortedMap String String} {ds : List SkillPackageConfigDeclaration}
  {d : SkillPackageConfigDeclaration}

section
variable {floats : Floats} {linked : Linked} {path skillId : String}
  {package : SkillPackageConfigRegistryEntry}

/-! ## The batch -/

theorem normalizeInput_ok (h : normalizeInput floats package skillId key input = .ok v) :
    ∃ d, package.find key = some d ∧ d.normalizeValueDetailed floats v = .ok v := by
  simp only [normalizeInput, bind_eq_ok, okOr_eq_ok] at h
  obtain ⟨d, hd, raw, -, h⟩ := h
  split at h
  next hnormalized =>
    cases h
    exact ⟨d, hd, SkillPackageConfigDeclaration.normalizeValueDetailed_normal hnormalized⟩
  next => cases h

theorem normalizeInputs_ok (h : normalizeInputs floats package skillId l acc = .ok m)
    (hkeys : (l.map Prod.fst).Nodup) (key : String) : (∀ input, l.lookup key = some input →
      ∃ v, normalizeInput floats package skillId key input = .ok v ∧ m.lookup key = some v) ∧
    (l.lookup key = none → m.lookup key = acc.lookup key) := by
  induction l generalizing acc with
  | nil =>
    cases h
    exact ⟨nofun, fun _ => rfl⟩
  | cons e rest ih =>
    obtain ⟨k, input⟩ := e
    rw [map_cons, nodup_cons] at hkeys
    obtain ⟨v, hv, h⟩ := bind_eq_ok.1 h
    obtain ⟨hfound, hmissing⟩ := ih h hkeys.2
    rw [SortedMap.lookup_cons_eq]
    by_cases hk : key = k
    · subst hk
      have hfresh : rest.lookup key = none := by
        rw [lookup_eq_none_iff]
        intro e' he'
        have hmem : e'.1 ∈ rest.map Prod.fst := mem_map_of_mem he'
        exact bne_iff_ne.2 fun heq => hkeys.1 (heq ▸ hmem)
      rw [if_pos rfl]
      refine ⟨fun input' h' => ?_, fun h' => nomatch h'⟩
      cases h'
      exact ⟨v, hv, by rw [hmissing hfresh, SortedMap.lookup_insert_self]⟩
    · rw [if_neg hk]
      exact ⟨hfound, fun hnone => by rw [hmissing hnone, SortedMap.lookup_insert_of_ne hk]⟩

/-! ## The transaction -/

/-- A committed transaction changed the values of the batch in the file it read, and nothing else of
that package. -/
theorem setValuesValidated_ok {store : StoreFile} {result : SkillConfigWriteResult}
    (h : store.setValuesValidated linked path answers skillId values expectedRevision validate =
      .ok (result, store')) : result.values = values ∧ validateSkillConfigSkillId skillId = .ok skillId ∧
    ∃ disk, readSnapshotFrom linked path store.disk = .ok disk ∧
      ∀ key, (store'.skillValues skillId).lookup key =
        (values.lookup key).or (((disk.document.skills.lookup skillId).getD ∅).lookup key) := by
  simp only [StoreFile.setValuesValidated, bind_eq_ok] at h
  obtain ⟨expected, hprepare, -, -, disk, hread, ⟨snapshot, changedKeys, bytes⟩, htransact, h⟩ := h
  cases h
  refine ⟨rfl, ?_, disk, ?_, fun key => ?_⟩
  · simp only [WriteRequest.prepare, bind_eq_ok] at hprepare
    obtain ⟨id, hid, -⟩ := hprepare
    have heq : id = skillId := by
      simp only [validateSkillConfigSkillId, bind_eq_ok] at hid
      obtain ⟨-, -, -, -, hid⟩ := hid
      cases hid
      rfl
    rwa [heq] at hid
  · simp only [readCurrent, bind_eq_ok] at hread
    obtain ⟨-, -, read, hread, -, -, -, -, h⟩ := hread
    cases h
    exact hread
  · -- the package of the document is the batch over what was there
    have hpackage : snapshot.document.skills.lookup skillId =
        some (setEntries values.entries ((disk.document.skills.lookup skillId).getD ∅)).1 := by
      simp only [transact, WriteRequest.apply, bind_eq_ok] at htransact
      obtain ⟨⟨document, changed⟩, ⟨-, -, happly⟩, htransact⟩ := htransact
      cases happly
      split at htransact
      · cases htransact
        exact SortedMap.lookup_insert_self
      · simp only [bind_eq_ok] at htransact
        obtain ⟨revision, -, written, -, htransact⟩ := htransact
        cases htransact
        exact SortedMap.lookup_insert_self
    rw [StoreFile.skillValues, hpackage, getD_some,
      (setEntries_lookup values.keys_nodup _ key).1]
    rfl

def transactionActs (i : StoreId) (answers : StoreAnswers) (request : WriteRequest)
    (expectedRevision : Option String) : List Act :=
  [.begin i request expectedRevision, .acquire i answers.lock, .load i answers.load,
    .commit i answers.write, .install i, .finish i]

section
variable {w : World} {i : StoreId} {cached disk : SkillConfigSnapshot} {request : WriteRequest}
  {expectedRevision : Option String} {expected : Option UInt64} {answers : StoreAnswers}

def World.locking (w : World) (i : StoreId) (cached : SkillConfigSnapshot) (write : WriteCall) :
    World where
  disk := w.disk
  lock := some i
  stores := update w.stores i (some ⟨cached, .locked write⟩)
  nextCall := w.nextCall + 1
  log := .began write.call i cached :: w.log

theorem run_lock (hstore : w.stores i = some ⟨cached, .idle⟩) (hlock : w.lock = none)
    (hprepare : request.prepare expectedRevision = .ok expected) (hanswer : answers.lock = none) :
    w.run linked path ((transactionActs i answers request expectedRevision).take 2) =
      some (w.locking i cached ⟨w.nextCall, request, expected⟩) := by
  simp [transactionActs, run, step, hstore, begin, hprepare, setStore, acquire, hanswer, hlock, locking]

/-- The read of a section depends on the file and the cache only. -/
theorem run_load (hstore : w.stores i = some ⟨cached, .idle⟩) (hlock : w.lock = none)
    (hprepare : request.prepare expectedRevision = .ok expected) (hanswer : answers.lock = none) :
    w.run linked path ((transactionActs i answers request expectedRevision).take 3) =
      match (World.initial w.disk).readCurrent linked path ⟨cached, .idle⟩ ⟨0, request, expected⟩
          answers.load with
      | .error message =>
        some ((w.locking i cached ⟨w.nextCall, request, expected⟩).fail i
          ⟨cached, .locked ⟨w.nextCall, request, expected⟩⟩ w.nextCall message)
      | .ok disk => some (w.committing i cached disk ⟨w.nextCall, request, expected⟩) := by
  have hat : (w.locking i cached ⟨w.nextCall, request, expected⟩).stores i =
      some ⟨cached, .locked ⟨w.nextCall, request, expected⟩⟩ := update_self ..
  have hread : (w.locking i cached ⟨w.nextCall, request, expected⟩).readCurrent linked path
      ⟨cached, .locked ⟨w.nextCall, request, expected⟩⟩ ⟨w.nextCall, request, expected⟩ answers.load =
      (World.initial w.disk).readCurrent linked path ⟨cached, .idle⟩ ⟨0, request, expected⟩
        answers.load := by
    simp only [readCurrent, initial, locking]
  refine (run_append_some (run_lock hstore hlock hprepare hanswer)).trans ?_
  simp only [run, step, hat, load, hread]
  cases (World.initial w.disk).readCurrent linked path ⟨cached, .idle⟩ ⟨0, request, expected⟩
      answers.load with
  | error message => rfl
  | ok disk => simp [run, setStore, locking, committing]

variable (linked path) in
/-- The commit section on what was read, and the sections behind it. -/
theorem run_commit (w : World) (i : StoreId) (cached disk : SkillConfigSnapshot) (write : WriteCall)
    (answers : StoreAnswers) :
    match transact linked path write disk answers.write with
    | .error message =>
      (w.committing i cached disk write).run linked path [.commit i answers.write] =
        some ((w.committing i cached disk write).fail i ⟨cached, .loaded write disk⟩ write.call message)
    | .ok (snapshot, changedKeys, bytes) =>
      ∃ w', (w.committing i cached disk write).run linked path
          [.commit i answers.write, .install i, .finish i] = some w' ∧
        w'.stores = update w.stores i (some ⟨snapshot, .idle⟩) ∧ w'.lock = none ∧
        w'.disk = bytes.or w.disk ∧ ∃ older, w'.log = .wrote write.call i ⟨write.request,
          snapshot.document.revision, changedKeys, if bytes.isSome then answers.write.sync else none⟩ ::
            older := by
  split
  next message htransact => simp only [run, step_commit, commit, htransact, Option.bind_some]
  next snapshot changedKeys bytes htransact =>
    simp only [run, step_commit, commit, htransact, Option.bind_some]
    cases bytes <;> simp [step, setStore, install, finish, unlock, committing]

end

/-- A transaction that nothing interrupts is a run of the steps of its store. It ends with the cache and
the file of the transaction and reports its result; one that fails ends after the section that failed,
with the cache and the file as they were. -/
theorem StoreFile.setValuesValidated_run {w : World} {i : StoreId} {store : StoreFile}
    (hstore : w.stores i = some ⟨store.snapshot, .idle⟩) (hlock : w.lock = none)
    (hdisk : w.disk = store.disk) (answers : StoreAnswers) (values : SortedMap String String)
    (expectedRevision : Option String) (validate : SortedMap String String → ConfigResult Unit) :
    let acts := transactionActs i answers (.set skillId values validate) expectedRevision
    let transaction := store.setValuesValidated linked path answers skillId values expectedRevision
      validate
    (∀ result store', transaction = .ok (result, store') →
      ∃ w', w.run linked path acts = some w' ∧
        w'.stores = update w.stores i (some ⟨store'.snapshot, .idle⟩) ∧ w'.lock = none ∧
        w'.disk = store'.disk ∧ ∃ outcome older, w'.log = .wrote w.nextCall i outcome :: older ∧
          outcome.request = .set skillId values validate ∧
          result = ⟨revisionText outcome.revision, outcome.changed, values, outcome.changedKeys,
            outcome.durabilityError⟩) ∧
    ∀ message, transaction = .error message →
      ∃ n w', w.run linked path (acts.take n) = some w' ∧
        w'.stores = update w.stores i (some ⟨store.snapshot, .idle⟩) ∧ w'.lock = none ∧
        w'.disk = store.disk ∧ w'.log = .failed w.nextCall i store.snapshot message ::
          .began w.nextCall i store.snapshot :: w.log := by
  obtain ⟨request, hrequest⟩ : ∃ request, request = WriteRequest.set skillId values validate := ⟨_, rfl⟩
  rw [← hrequest]
  intro acts transaction
  have htransaction : transaction = store.setValuesValidated linked path answers skillId values
    expectedRevision validate := rfl
  simp only [StoreFile.setValuesValidated, ← hrequest] at htransaction
  cases hprepare : request.prepare expectedRevision with
  | error message =>
    rw [hprepare] at htransaction
    refine ⟨fun result store' h => (by cases htransaction.symm.trans h), fun message' h => ?_⟩
    cases htransaction.symm.trans h
    refine ⟨1, w.begin i ⟨store.snapshot, .idle⟩ request expectedRevision, ?_, ?_⟩
    · simp [acts, transactionActs, run, step, hstore]
    · simp [begin, hprepare, fail, setStore, unlock, hlock, hdisk]
  | ok expected =>
  rw [hprepare, ok_bind] at htransaction
  cases hanswer : answers.lock with
  | some message =>
    have hmessage : transaction = .error message := by
      rw [htransaction, hanswer, answered, String.empty_append]
      rfl
    refine ⟨fun result store' h => (by cases hmessage.symm.trans h), fun message' h => ?_⟩
    cases hmessage.symm.trans h
    let w₁ := w.begin i ⟨store.snapshot, .idle⟩ request expectedRevision
    refine ⟨2, w₁.fail i ⟨store.snapshot, .waiting ⟨w.nextCall, request, expected⟩⟩ w.nextCall message,
      ?_, ?_⟩
    · simp [acts, transactionActs, run, step, hstore, begin, hprepare, setStore, acquire, hanswer, w₁]
    · simp [w₁, begin, hprepare, fail, setStore, unlock, hlock, hdisk]
  | none =>
  rw [hanswer, answered, ok_bind, ← hdisk] at htransaction
  have hload : w.run linked path (acts.take 3) = _ := run_load hstore hlock hprepare hanswer
  cases hread : (World.initial w.disk).readCurrent linked path ⟨store.snapshot, .idle⟩
      ⟨0, request, expected⟩ answers.load with
  | error message =>
    rw [hread] at htransaction hload
    refine ⟨fun result store' h => (by cases htransaction.symm.trans h), fun message' h => ?_⟩
    cases htransaction.symm.trans h
    exact ⟨3, _, hload, by simp [fail, setStore, unlock, locking, hdisk]⟩
  | ok disk =>
  rw [hread] at hload
  rw [hread, ok_bind] at htransaction
  -- the transaction does not depend on the number of its call
  have hcommit := run_commit linked path w i store.snapshot disk ⟨w.nextCall, request, expected⟩ answers
  rw [show transact linked path ⟨w.nextCall, request, expected⟩ disk answers.write =
    transact linked path ⟨0, request, expected⟩ disk answers.write from rfl] at hcommit
  cases htransact : transact linked path ⟨0, request, expected⟩ disk answers.write with
  | error message =>
    rw [htransact] at htransaction hcommit
    refine ⟨fun result store' h => (by cases htransaction.symm.trans h), fun message' h => ?_⟩
    cases htransaction.symm.trans h
    exact ⟨4, _, (run_append_some hload).trans hcommit, by
      simp [fail, setStore, unlock, committing, hdisk]⟩
  | ok committed =>
  obtain ⟨snapshot, changedKeys, bytes⟩ := committed
  rw [htransact] at htransaction hcommit
  refine ⟨fun result store' h => ?_, fun message h => (by cases htransaction.symm.trans h)⟩
  cases htransaction.symm.trans h
  obtain ⟨w', hrun, hstores, hfree, hfile, older, hlog⟩ := hcommit
  exact ⟨w', (run_append_some hload).trans hrun, hstores, hfree, by rw [hfile, hdisk], _, older, hlog,
    rfl, rfl⟩

/-! ## Listing and status -/

theorem listInto_ok (h : listInto floats stored ds acc = .ok m)
    (hkeys : (ds.map SkillPackageConfigDeclaration.key).Nodup) :
    (∀ d ∈ ds, acc.lookup d.key = none → effectiveValue floats stored d = .ok (m.lookup d.key)) ∧
    ∀ key, key ∉ ds.map SkillPackageConfigDeclaration.key → m.lookup key = acc.lookup key := by
  induction ds generalizing acc with
  | nil =>
    cases h
    exact ⟨fun d hd => absurd hd not_mem_nil, fun _ _ => rfl⟩
  | cons d ds ih =>
    rw [map_cons, nodup_cons] at hkeys
    obtain ⟨value, hvalue, h⟩ := bind_eq_ok.1 h
    have hother : ∀ d' ∈ ds, d'.key ≠ d.key := fun d' hd' heq =>
      hkeys.1 (heq ▸ mem_map_of_mem hd')
    cases value with
    | some v =>
      obtain ⟨hlist, hrest⟩ := ih h hkeys.2
      refine ⟨?_, fun key hkey => ?_⟩
      · intro d' hd' hnone
        rcases mem_cons.1 hd' with rfl | hd'
        · rw [hvalue, hrest _ hkeys.1, SortedMap.lookup_insert_self]
        · exact hlist d' hd' (by rwa [SortedMap.lookup_insert_of_ne (hother d' hd')])
      · rw [map_cons, mem_cons, not_or] at hkey
        rw [hrest key hkey.2, SortedMap.lookup_insert_of_ne hkey.1]
    | none =>
      obtain ⟨hlist, hrest⟩ := ih h hkeys.2
      refine ⟨?_, fun key hkey => ?_⟩
      · intro d' hd' hnone
        rcases mem_cons.1 hd' with rfl | hd'
        · rw [hvalue, hrest _ hkeys.1, hnone]
        · exact hlist d' hd' hnone
      · rw [map_cons, mem_cons, not_or] at hkey
        exact hrest key hkey.2

/-- A listing succeeds when every declared key is readable. -/
theorem listInto_isOk
    (h : ∀ d ∈ ds, ∃ value, effectiveValue floats stored d = .ok value)
    (acc : SortedMap String String) : ∃ m, listInto floats stored ds acc = .ok m := by
  induction ds generalizing acc with
  | nil => exact ⟨acc, rfl⟩
  | cons d ds ih =>
    obtain ⟨value, hvalue⟩ := h d mem_cons_self
    have hrest := ih fun d' hd' => h d' (mem_cons_of_mem d hd')
    rw [listInto, hvalue, ok_bind]
    cases value with
    | some v | none => exact hrest _

theorem mem_collectDeclarationIssues (h : collectDeclarationIssues floats stored ds = .ok issues)
    (hmem : issue ∈ issues.1 ++ issues.2) :
    ∃ d ∈ ds, ∃ own, declarationIssues floats stored d = .ok own ∧ issue ∈ own.1 ++ own.2 := by
  induction ds generalizing issues with
  | nil =>
    cases h
    exact absurd hmem not_mem_nil
  | cons d ds ih =>
    simp only [collectDeclarationIssues, bind_eq_ok] at h
    obtain ⟨own, hown, rest, hrest, h⟩ := h
    cases h
    have hsplit : issue ∈ own.1 ++ own.2 ∨ issue ∈ rest.1 ++ rest.2 := by
      simp only [mem_append] at hmem ⊢
      tauto
    rcases hsplit with hmem | hmem
    · exact ⟨d, mem_cons_self, own, hown, hmem⟩
    · obtain ⟨d', hd', h'⟩ := ih hrest hmem
      exact ⟨d', mem_cons_of_mem d hd', h'⟩

theorem key_of_declarationIssues (h : declarationIssues floats stored d = .ok own)
    (hmem : issue ∈ own.1 ++ own.2) : issue.key = d.key ∧ ∀ value, stored.lookup d.key = some value →
      d.normalizeValueDetailed floats value ≠ .ok value := by
  unfold declarationIssues at h
  split at h
  next value hstored =>
    split at h
    next => cases h; exact absurd hmem not_mem_nil
    next error herror =>
      cases h
      obtain rfl := mem_singleton.1 hmem
      refine ⟨rfl, fun value' h' hnormal => ?_⟩
      cases hstored.symm.trans h'
      cases herror.symm.trans hnormal
  next hstored =>
    have hno : ∀ value, stored.lookup d.key = some value →
        d.normalizeValueDetailed floats value ≠ .ok value := by
      intro value h'
      cases hstored.symm.trans h'
    split at h
    · obtain ⟨default, -, h⟩ := bind_eq_ok.1 h
      cases default with
      | some _ => cases h; exact absurd hmem not_mem_nil
      | none =>
        cases h
        obtain rfl := mem_singleton.1 hmem
        exact ⟨rfl, hno⟩
    · cases h
      exact absurd hmem not_mem_nil

end

/-! ## The service -/

@[simp] theorem SkillConfigStoreRouter.forRoot_setRoot (stores : SkillConfigStoreRouter)
    (rootName : String) (store : StoreFile) :
    (stores.setRoot rootName store).forRoot rootName = store := by
  unfold setRoot forRoot
  split <;> rfl

namespace SkillPackageConfigService

section
variable {floats : Floats} {linked : Linked} {path skillId : String}
  {service service' : SkillPackageConfigService} {package : SkillPackageConfigRegistryEntry}
  {answers : StoreAnswers} {validator : ValidatorAnswers floats}
  {values : SortedMap String (SkillPackageConfigInputValue floats)}
  {expectedRevision : Option String} {result : SkillConfigWriteResult} {store : StoreFile}

structure Written (linked : Linked) (path : String) (floats : Floats)
    (service service' : SkillPackageConfigService) (skillId : String)
    (values : SortedMap String (SkillPackageConfigInputValue floats))
    (result : SkillConfigWriteResult) (package : SkillPackageConfigRegistryEntry)
    (store store' : StoreFile) (before : SortedMap String String) : Prop where
  found : service.package skillId = .ok package
  kept : service'.package skillId = .ok package
  old : service.storeForPackage package = .ok store
  new : service'.storeForPackage package = .ok store'
  identifier : validateSkillConfigSkillId skillId = .ok skillId
  batch : ∀ key input, values.lookup key = some input →
    ∃ v, normalizeInput floats package skillId key input = .ok v ∧ result.values.lookup key = some v
  others : ∀ key, values.lookup key = none → result.values.lookup key = none
  read : ∃ disk, readSnapshotFrom linked path store.disk = .ok disk ∧
    before = (disk.document.skills.lookup skillId).getD ∅
  stored : ∀ key, (store'.skillValues skillId).lookup key =
    (result.values.lookup key).or (before.lookup key)

theorem written_of_setDeclaredValues
    (h : service.setDeclaredValues linked path floats answers validator skillId values
      expectedRevision = (.ok result, service')) :
    ∃ package store store' before,
      Written linked path floats service service' skillId values result package store store' before := by
  unfold setDeclaredValues at h
  split at h
  · cases h
  next package written store' hwrite =>
    have hservice := congrArg Prod.snd h
    have hresult := congrArg Prod.fst h
    dsimp only at hservice hresult
    split at hresult
    · cases hresult
    cases hresult
    simp only [writeDeclared, bind_eq_ok] at hwrite
    obtain ⟨-, -, found, hpackage, normalized, hnormalized, store, hstore, ⟨result', store''⟩, hset,
      hwrite⟩ := hwrite
    cases hwrite
    obtain ⟨hvalues, hid, disk, hread, hstored⟩ := setValuesValidated_ok hset
    have hbatch := normalizeInputs_ok hnormalized values.keys_nodup
    refine ⟨package, store, store', (disk.document.skills.lookup skillId).getD ∅, ?_⟩
    constructor
    case found => exact hpackage
    case kept =>
      rw [← hservice]
      exact hpackage
    case old => exact hstore
    case new =>
      simp only [storeForPackage, bind_eq_ok, okOr_eq_ok] at hstore
      obtain ⟨stores, hstores, -⟩ := hstore
      rw [← hservice]
      simp only [storeForPackage, hstores, map_some, okOr_some, ok_bind,
        SkillConfigStoreRouter.forRoot_setRoot]
      rfl
    case identifier => exact hid
    case batch =>
      intro key input hinput
      rw [hvalues]
      exact (hbatch key).1 input hinput
    case others =>
      intro key hnone
      rw [hvalues, (hbatch key).2 hnone]
      rfl
    case read => exact ⟨disk, hread, rfl⟩
    case stored =>
      intro key
      rw [hvalues]
      exact hstored key

theorem getEffectiveValue_of_find
    (hpackage : service.package skillId = .ok package)
    (hstore : service.storeForPackage package = .ok store)
    (hid : validateSkillConfigSkillId skillId = .ok skillId) (hd : package.find key = some d) :
    service.getEffectiveValue floats skillId key =
      effectiveValue floats (store.skillValues skillId) d := by
  obtain ⟨hmem, rfl⟩ := SkillPackageConfigRegistryEntry.find_eq_some.1 hd
  have hkey : validateSkillConfigKey d.key = .ok d.key := by
    rw [validateSkillConfigKey, refuseIf_of_not]
    · rfl
    · rw [package.keys_valid d hmem]
      exact fun h => nomatch h
  simp only [getEffectiveValue, hpackage, ok_bind, hd, okOr_some, hstore, hid, hkey]

section
variable {store' : StoreFile} {before : SortedMap String String}
  (W : Written linked path floats service service' skillId values result package store store' before)
include W

theorem Written.get_written (hinput : values.lookup key = some input) :
    ∃ v, normalizeInput floats package skillId key input = .ok v ∧
      result.values.lookup key = some v ∧
      service'.getEffectiveValue floats skillId key = .ok (some v) := by
  obtain ⟨v, hv, hresult⟩ := W.batch key input hinput
  refine ⟨v, hv, hresult, ?_⟩
  obtain ⟨d, hd, hnormal⟩ := normalizeInput_ok hv
  rw [getEffectiveValue_of_find W.kept W.new W.identifier hd]
  obtain ⟨-, rfl⟩ := SkillPackageConfigRegistryEntry.find_eq_some.1 hd
  refine effectiveValue_of_normal ?_ hnormal
  rw [W.stored, hresult, some_or]

theorem Written.effective_other
    (hnone : values.lookup d.key = none) :
    effectiveValue floats (store'.skillValues skillId) d = effectiveValue floats before d := by
  refine effectiveValue_congr ?_
  rw [W.stored, W.others d.key hnone, none_or]

theorem Written.get_other (hnone : values.lookup key = none)
    (hsame : store.skillValues skillId = before) :
    service'.getEffectiveValue floats skillId key = service.getEffectiveValue floats skillId key := by
  simp only [getEffectiveValue, W.found, W.kept, ok_bind]
  cases hd : package.find key with
  | none => rfl
  | some d =>
    obtain ⟨-, rfl⟩ := SkillPackageConfigRegistryEntry.find_eq_some.1 hd
    simp only [okOr_some, ok_bind, W.old, W.new, W.effective_other hnone, hsame]

/-- The listing agrees with the single reads, and fails only when one of the other keys cannot be
read. -/
theorem Written.list :
    ((∃ listed, service'.listEffectiveValues floats skillId = .ok listed) ↔
      ∀ d ∈ package.declarations, values.lookup d.key = none →
        ∃ value, effectiveValue floats before d = .ok value) ∧
    ∀ listed, service'.listEffectiveValues floats skillId = .ok listed →
      ∀ d ∈ package.declarations,
        service'.getEffectiveValue floats skillId d.key = .ok (listed.lookup d.key) := by
  have hlist : service'.listEffectiveValues floats skillId =
      listInto floats (store'.skillValues skillId) package.declarations ∅ := by
    simp only [listEffectiveValues, W.kept, W.new, W.identifier, ok_bind]
  have hget : ∀ d ∈ package.declarations, service'.getEffectiveValue floats skillId d.key =
      effectiveValue floats (store'.skillValues skillId) d := fun d hd =>
    getEffectiveValue_of_find W.kept W.new W.identifier
      (SkillPackageConfigRegistryEntry.find_eq_some.2 ⟨hd, rfl⟩)
  rw [hlist]
  refine ⟨⟨fun ⟨listed, h⟩ d hd hnone => ?_, fun h => listInto_isOk (fun d hd => ?_) ∅⟩,
    fun listed h d hd => ?_⟩
  · exact ⟨_, W.effective_other hnone ▸ (listInto_ok h package.keys_nodup).1 d hd rfl⟩
  · cases hinput : values.lookup d.key with
    | none => exact W.effective_other hinput ▸ h d hd hinput
    | some input =>
      obtain ⟨v, -, -, hv⟩ := W.get_written hinput
      exact ⟨some v, hget d hd ▸ hv⟩
  · rw [hget d hd]
    exact (listInto_ok h package.keys_nodup).1 d hd rfl

/-- No missing or invalid value is one of a written key. -/
theorem Written.status (h : service'.status floats answers' skillId = .ok s) :
    ∀ issue ∈ s.missing ++ s.invalid, values.lookup issue.key = none := by
  simp only [SkillPackageConfigService.status, W.kept, W.new, W.identifier, ok_bind,
    statusForPackage, bind_eq_ok] at h
  obtain ⟨⟨missing, invalid⟩, hissues, business, -, h⟩ := h
  cases h
  intro issue hmem
  obtain ⟨d, hd, own, hown, hmem⟩ := mem_collectDeclarationIssues hissues hmem
  obtain ⟨hkey, hnormal⟩ := key_of_declarationIssues hown hmem
  rw [hkey]
  by_contra hne
  obtain ⟨input, hinput⟩ := ne_none_iff_exists'.1 hne
  obtain ⟨v, hv, hresult⟩ := W.batch d.key input hinput
  obtain ⟨d', hd', hnormal'⟩ := normalizeInput_ok hv
  cases hd'.symm.trans (SkillPackageConfigRegistryEntry.find_eq_some.2 ⟨hd, rfl⟩)
  exact hnormal v (by rw [W.stored, hresult, some_or]) hnormal'

end

/-- A batch with an input that is not accepted changes nothing. -/
theorem setDeclaredValues_rejected (hinput : values.lookup key = some input)
    (hrejected : ∀ package, service.registry.lookup skillId = some package → ∀ v,
      normalizeInput floats package skillId key input ≠ .ok v) :
    ∃ message, service.setDeclaredValues linked path floats answers validator skillId values
      expectedRevision = (.error message, service) := by
  unfold setDeclaredValues
  split
  next message _ => exact ⟨message, rfl⟩
  next hwrite =>
    simp only [writeDeclared, bind_eq_ok] at hwrite
    obtain ⟨-, -, found, hpackage, normalized, hnormalized, -⟩ := hwrite
    obtain ⟨v, hv, -⟩ := (normalizeInputs_ok hnormalized values.keys_nodup key).1 input hinput
    exact absurd hv (hrejected found (okOr_eq_ok.1 hpackage) v)

end

/-- Writes and reads of declared values agree. A normal form is its own normal form. After a batch was
written, every key of it reads as the normalized value; every other declared key reads as it did in
the file the transaction read, which is what it read before unless another process had changed the
package; the listing says the same, and fails exactly when one of the other keys cannot be read; the
status has no missing or invalid value for a key of the batch. A batch with a key that is undeclared or
whose value is not accepted leaves the service as it is. -/
theorem write_read_agree (linked : Linked) (path : String) (floats : Floats) :
    (∀ (d : SkillPackageConfigDeclaration) raw value, d.normalizeValueDetailed floats raw = .ok value →
      d.normalizeValueDetailed floats value = .ok value) ∧
    (∀ (service service' : SkillPackageConfigService) answers validator skillId values
        expectedRevision result,
      service.setDeclaredValues linked path floats answers validator skillId values
        expectedRevision = (.ok result, service') →
      ∃ package store disk, service.registry.lookup skillId = some package ∧
        service.storeForPackage package = .ok store ∧
        readSnapshotFrom linked path store.disk = .ok disk ∧
        (∀ key input, values.lookup key = some input →
          ∃ v, normalizeInput floats package skillId key input = .ok v ∧
            result.values.lookup key = some v ∧
            service'.getEffectiveValue floats skillId key = .ok (some v)) ∧
        (∀ d ∈ package.declarations, values.lookup d.key = none →
          service'.getEffectiveValue floats skillId d.key =
            effectiveValue floats ((disk.document.skills.lookup skillId).getD ∅) d) ∧
        (store.snapshot.document.skills.lookup skillId = disk.document.skills.lookup skillId →
          ∀ key, values.lookup key = none → service'.getEffectiveValue floats skillId key =
            service.getEffectiveValue floats skillId key) ∧
        ((∃ listed, service'.listEffectiveValues floats skillId = .ok listed) ↔
          ∀ d ∈ package.declarations, values.lookup d.key = none → ∃ value,
            effectiveValue floats ((disk.document.skills.lookup skillId).getD ∅) d = .ok value) ∧
        (∀ listed, service'.listEffectiveValues floats skillId = .ok listed →
          ∀ d ∈ package.declarations,
            service'.getEffectiveValue floats skillId d.key = .ok (listed.lookup d.key)) ∧
        ∀ validator' status, service'.status floats validator' skillId = .ok status →
          ∀ issue ∈ status.missing ++ status.invalid, values.lookup issue.key = none) ∧
    ∀ (service : SkillPackageConfigService) answers validator skillId
        (values : SortedMap String (SkillPackageConfigInputValue floats)) expectedRevision key input,
      values.lookup key = some input →
      (∀ package, service.registry.lookup skillId = some package →
        ∀ v, normalizeInput floats package skillId key input ≠ .ok v) →
      ∃ message, service.setDeclaredValues linked path floats answers validator skillId values
        expectedRevision = (.error message, service) := by
  refine ⟨fun d raw value => SkillPackageConfigDeclaration.normalizeValueDetailed_normal, ?_, ?_⟩
  · intro service service' answers validator skillId values expectedRevision result h
    obtain ⟨package, store, store', before, W⟩ := written_of_setDeclaredValues h
    obtain ⟨disk, hread, rfl⟩ := W.read
    refine ⟨package, store, disk, okOr_eq_ok.1 W.found, W.old, hread,
      fun key input hinput => W.get_written hinput, fun d hd hnone => ?_, fun hsame key hnone => ?_,
      W.list.1, W.list.2, fun validator' status hstatus => W.status hstatus⟩
    · rw [getEffectiveValue_of_find W.kept W.new W.identifier
        (SkillPackageConfigRegistryEntry.find_eq_some.2 ⟨hd, rfl⟩), W.effective_other hnone]
    · exact W.get_other hnone (by rw [StoreFile.skillValues, hsame])
  · intro service answers validator skillId values expectedRevision key input hinput hrejected
    exact setDeclaredValues_rejected hinput hrejected

end SkillPackageConfigService

/-! ## A package that cannot be listed after a write -/

/-- The mode as before, and a level that was stored as a text before it was declared an integer. -/
def levelDocument : SkillConfigDocument where
  formatVersion := 1
  revision := 1
  skills := ⟨[("demo", ⟨[("level", "high"), ("mode", "fast")], by decide⟩)], by decide⟩

@[irreducible] def levelText : List UInt8 :=
  asciiBytes ("\x7b\n  \"format_version\": 1,\n  \"revision\": \"1\",\n  \"skills\": \x7b\n" ++
    "    \"demo\": \x7b\n      \"level\": \"high\",\n      \"mode\": \"fast\"\n    \x7d\n  \x7d\n\x7d")

theorem levelText_head : ∀ e ∈ [(levelDocument.toJson, levelText)], e.2.head? = some 0x7b := by
  decide +kernel

theorem levelText_ne : ∀ e ∈ ([] : List (List UInt8 × Json)),
    ∀ p ∈ [(levelDocument.toJson, levelText)], e.1 ≠ p.2 ++ [0x0a] := by simp

def levelTable : TextTable Json where
  printed := [(levelDocument.toJson, levelText)]
  accepted := []
  printed_nodup := nodup_singleton _
  printed_head := levelText_head
  accepted_head := TextTable.none_head
  accepted_ne := levelText_ne

noncomputable def levelLinked : Linked := Linked.ofTable levelTable
  [(levelText ++ [0x0a], "f37ac6bdafa7655dd281803ed85cb08bca8a5939af01735f2526e4f3d9415f2e")]

def levelDeclaration (key : String) (valueType : SkillPackageConfigType) :
    SkillPackageConfigDeclaration where
  key := key
  valueType := valueType
  required := false
  default := none
  sensitive := false
  description := key
  constraints := .default
  options := []

def levelEntry : SkillPackageConfigRegistryEntry where
  rootName := "USER"
  configValidatorPath := none
  declarations := [levelDeclaration "mode" .string, levelDeclaration "level" .integer]
  keys_nodup := by decide
  keys_valid := by decide +kernel

/-- Nothing that a validator would be asked. -/
def silentValidator : ValidatorAnswers zeroFloats := ⟨.ok (), fun _ => .ok []⟩

theorem write_levelDocument (path : String) :
    writeDocumentTo levelLinked path .quiet levelDocument = .ok (levelText ++ [0x0a]) := by
  have hserialized : serialized levelLinked levelDocument = levelText ++ [0x0a] := by
    have hmem : (levelDocument.toJson, levelText) ∈ levelTable.printed := mem_singleton_self _
    have hprint : levelTable.print levelDocument.toJson = levelText :=
      levelTable.print_of_mem (by decide +kernel) hmem
    exact congrArg (· ++ [0x0a]) hprint
  have hsize : (serialized levelLinked levelDocument).length ≤ skillConfigMaxDocumentBytes := by
    rw [hserialized]
    decide +kernel
  have hvalid : validateSkillConfigDocument levelDocument = .ok () := by decide +kernel
  exact writeDocumentTo_eq_ok.2 ⟨hvalid, rfl, rfl, rfl, hsize, hserialized.symm⟩

/-- The mode is written again as it is. -/
def modeBatch : SortedMap String (SkillPackageConfigInputValue zeroFloats) :=
  ⟨[("mode", .string "fast")], by decide⟩

noncomputable def levelSnapshot : SkillConfigSnapshot :=
  ⟨levelLinked.hexSha256 (levelText ++ [0x0a]), levelDocument⟩

noncomputable def levelStore : StoreFile := ⟨levelSnapshot, some (levelText ++ [0x0a])⟩

noncomputable def levelService : SkillPackageConfigService where
  stores := some ⟨levelStore, levelStore⟩
  registry := ⟨[("demo", levelEntry)], by decide⟩

def modeResult : SkillConfigWriteResult :=
  ⟨"1", false, ⟨[("mode", "fast")], mode_sorted⟩, [], none⟩

theorem levelStore_setValues (path : String) :
    levelStore.setValuesValidated levelLinked path .quiet "demo" modeResult.values none
      (SkillPackageConfigService.validateCandidate zeroFloats silentValidator "demo" levelEntry) =
        .ok (modeResult, levelStore) := by
  have hprepare : (WriteRequest.set "demo" modeResult.values
      (SkillPackageConfigService.validateCandidate zeroFloats silentValidator "demo"
        levelEntry)).prepare none = .ok none := by decide +kernel
  have hread : readSnapshotFrom levelLinked path levelStore.disk = .ok levelSnapshot :=
    read_of_write (write_levelDocument path)
  have hprogress : validateSnapshotProgression levelSnapshot levelSnapshot "disk" = .ok () := by
    simp only [validateSnapshotProgression, UInt64.lt_irrefl, ne_eq, not_true_eq_false, and_false,
      refuseIf_of_not not_false, ok_bind]
  simp only [StoreFile.setValuesValidated, hprepare, ok_bind, readCurrent,
    initial, hread]
  rw [show levelStore.snapshot = levelSnapshot from rfl, hprogress]
  rfl

theorem levelService_setDeclaredValues (path : String) :
    levelService.setDeclaredValues levelLinked path zeroFloats .quiet silentValidator "demo" modeBatch
      none = (.ok modeResult, levelService) := by
  have hnormalize : normalizeInputs zeroFloats levelEntry "demo" modeBatch.entries ∅ =
      .ok modeResult.values := by decide +kernel
  have hpackage : levelService.package "demo" = .ok levelEntry := rfl
  have hstore : levelService.storeForPackage levelEntry = .ok levelStore := rfl
  have hwrite : levelService.writeDeclared levelLinked path zeroFloats .quiet silentValidator "demo"
      modeBatch none = .ok (levelEntry, modeResult, levelStore) := by
    simp only [SkillPackageConfigService.writeDeclared, hpackage, hstore, hnormalize,
      ok_bind, levelStore_setValues]
    rfl
  simp only [SkillPackageConfigService.setDeclaredValues, hwrite]
  rfl

/-- A batch that leaves another key unreadable is accepted, and the package can then not be listed. -/
theorem list_fails_after_write :
    ∃ result service', levelService.setDeclaredValues levelLinked
        "/etc/luaskills/skills/config.json" zeroFloats .quiet silentValidator "demo" modeBatch none =
          (.ok result, service') ∧
      service'.listEffectiveValues zeroFloats "demo" = .error
        ("CONFIG_VALUE_TYPE_INVALID: stored configuration 'level' is invalid: configuration " ++
          "'level' requires one cross-language safe integer: invalid digit found in string") := by
  refine ⟨modeResult, levelService, levelService_setDeclaredValues _, ?_⟩
  have hlist : listInto zeroFloats (levelStore.skillValues "demo") levelEntry.declarations ∅ =
      .error ("CONFIG_VALUE_TYPE_INVALID: stored configuration 'level' is invalid: configuration " ++
          "'level' requires one cross-language safe integer: invalid digit found in string") := by
    decide +kernel
  have hid : validateSkillConfigSkillId "demo" = .ok "demo" := by decide +kernel
  have hpackage : levelService.package "demo" = .ok levelEntry := rfl
  have hstore : levelService.storeForPackage levelEntry = .ok levelStore := rfl
  simp only [SkillPackageConfigService.listEffectiveValues, hpackage, hstore, hid, ok_bind,
    hlist]

/-- The store of the service, in a world of such stores. -/
theorem levelStore_run :
    ∃ w', World.run levelLinked "skill_config.json"
        { World.initial levelStore.disk with stores := fun _ => some ⟨levelSnapshot, .idle⟩ }
        (transactionActs 0 .quiet (.set "demo" modeResult.values
          (SkillPackageConfigService.validateCandidate zeroFloats silentValidator "demo" levelEntry))
          none) = some w' ∧
      w'.stores 0 = some ⟨levelSnapshot, .idle⟩ ∧ w'.lock = none ∧ w'.disk = levelStore.disk := by
  obtain ⟨w', hrun, hstores, hlock, hdisk, -⟩ :=
    (StoreFile.setValuesValidated_run (w := { World.initial levelStore.disk with
      stores := fun _ => some ⟨levelSnapshot, .idle⟩ }) (i := 0) rfl rfl rfl .quiet modeResult.values none
      _).1 modeResult levelStore (levelStore_setValues _)
  exact ⟨w', hrun, by rw [hstores]; rfl, hlock, hdisk⟩

end LuaSkills.SkillConfig
