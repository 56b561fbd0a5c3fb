import LuaSkills.HostResult.ChangeSet

/-!
# What the change set validator accepts

The shape of a change set as predicates on its fields, and for each check of the validator the lemma that
it passes exactly on the fields of that shape. The records of deleted files are a parameter: the shape a
skill may supply and the shape that is delivered differ there.
-/

namespace LuaSkills.HostResult

open List Option Except

open Json (Fields)
open SkillConfig (trim)
open ChangeSetDeleteContentMode (full truncated)

variable {u : Unit}

/-! ## Shapes -/

def IsText (value : Option Json) : Prop := ∃ s, value = some (.string s)

def IsCount (value : Option Json) : Prop := ∃ n, value = some (.number (.posInt n))

def OptionalText (value : Option Json) : Prop := value = none ∨ value = some .null ∨ IsText value

def OptionalCount (value : Option Json) : Prop := value = none ∨ value = some .null ∨ IsCount value

/-- A text whose trimmed form is an absolute path. -/
def IsAbsolutePath (isAbsolute : String → Bool) (value : Option Json) : Prop :=
  ∃ s, value = some (.string s) ∧ trim s ≠ "" ∧ isAbsolute (trim s) = true

structure LineEntry (entry : Json) (line : ℤ) : Prop where
  fields : ∃ fields : Fields, entry = .object fields ∧
    (∃ v, fields.get "line" = some v ∧ v.asI64 = some line) ∧ IsText (fields.get "content")
  positive : 0 < line

/-- Line records with increasing numbers. -/
def LineEntries (entries : List Json) : Prop :=
  ∃ lines, Forall₂ LineEntry entries lines ∧ lines.Pairwise (· < ·)

structure HunkFields (hunk : Fields) : Prop where
  before : IsText (hunk.get "before")
  after : IsText (hunk.get "after")
  entries : ∃ deleted inserted, hunk.get "delete" = some (.array deleted) ∧ LineEntries deleted ∧
    hunk.get "insert" = some (.array inserted) ∧ LineEntries inserted ∧
    ¬ (deleted = [] ∧ inserted = [])

def Hunk (hunk : Json) : Prop := ∃ fields : Fields, hunk = .object fields ∧ HunkFields fields

/-- What the record of a file needs for its kind of change; `deleted` is asked of a deleted file. -/
inductive Change (isAbsolute : String → Bool) (deleted : Fields → Prop) (file : Fields) :
    String → Prop
  | modify {hunks : List Json} (path : IsAbsolutePath isAbsolute (file.get "path"))
      (present : file.get "hunks" = some (.array hunks)) (nonempty : hunks ≠ [])
      (shape : ∀ hunk ∈ hunks, Hunk hunk) : Change isAbsolute deleted file "modify"
  | create (path : IsAbsolutePath isAbsolute (file.get "path"))
      (content : IsText (file.get "content")) : Change isAbsolute deleted file "create"
  | delete (path : IsAbsolutePath isAbsolute (file.get "path"))
      (shape : deleted file) : Change isAbsolute deleted file "delete"
  | rename (old : IsAbsolutePath isAbsolute (file.get "old_path"))
      (new : IsAbsolutePath isAbsolute (file.get "new_path")) : Change isAbsolute deleted file "rename"

structure FileFields (isAbsolute : String → Bool) (deleted : Fields → Prop) (file : Fields) :
    Prop where
  patch : OptionalText (file.get "patch")
  change : ∃ change, file.get "change" = some (.string change) ∧
    Change isAbsolute deleted file change

def FileRecord (isAbsolute : String → Bool) (deleted : Fields → Prop) (file : Json) : Prop :=
  ∃ fields : Fields, file = .object fields ∧ FileFields isAbsolute deleted fields

def Diagnostic (diagnostic : Json) : Prop :=
  ∃ fields : Fields, diagnostic = .object fields ∧ IsText (fields.get "level") ∧
    IsText (fields.get "message")

structure ChangeSetFields (record : Json → Prop) (object : Fields) : Prop where
  mode : object.get "mode" = some (.string "preview") ∨ object.get "mode" = some (.string "applied")
  summary : OptionalText (object.get "summary")
  files : ∃ files, object.get "files" = some (.array files) ∧ ∀ file ∈ files, record file
  diagnostics : object.get "diagnostics" = none ∨
    ∃ items, object.get "diagnostics" = some (.array items) ∧ ∀ item ∈ items, Diagnostic item

def ChangeSet (record : Json → Prop) (payload : Json) : Prop :=
  ∃ object : Fields, payload = .object object ∧ ChangeSetFields record object

/-- The record of a deleted file as the validator reads it. -/
inductive DeletedFields (file : Fields) : Prop
  | content {mode : ChangeSetDeleteContentMode}
      (parsed : ChangeSetDeleteContentMode.parse (file.get "content_mode") = some mode)
      (content : IsText (file.get "content"))
      (total : OptionalCount (file.get "total_line_count"))
  | summary (parsed : ChangeSetDeleteContentMode.parse (file.get "content_mode") = some truncated)
      (content : file.get "content" = none) (total : IsCount (file.get "total_line_count"))
      (head : IsText (file.get "content_head")) (tail : IsText (file.get "content_tail"))

/-! ## The checks -/

section
variable {isAbsolute : String → Bool} {displayName fieldPath : String} {value : Option Json}
  {fileIndex hunkIndex : ℕ} {file : Fields}

theorem bind_asStr_eq_some : value.bind Json.asStr = some s ↔ value = some (.string s) := by
  simp [bind_eq_some_iff]

theorem bind_asArray_eq_some : value.bind Json.asArray = some items ↔ value = some (.array items) := by
  simp [bind_eq_some_iff]

theorem bind_asU64_eq_some : value.bind Json.asU64 = some n ↔ value = some (.number (.posInt n)) := by
  simp [bind_eq_some_iff]

@[simp] theorem validateRequiredString_eq_ok :
    validateChangeSetRequiredStringField displayName fieldPath value = .ok u ↔ IsText value := by
  unfold validateChangeSetRequiredStringField IsText
  split
  · simp
  · rename_i hne
    simp only [reduceCtorEq, false_iff, not_exists]
    exact fun s hs => hne s hs

@[simp] theorem validateOptionalString_eq_ok :
    validateOptionalString displayName fieldPath value = .ok u ↔ OptionalText value := by
  unfold validateOptionalString OptionalText IsText
  rcases value with _ | v
  · simp
  · cases v <;> simp

@[simp] theorem validateRequiredCount_eq_ok :
    (∃ n, validateChangeSetRequiredNonNegativeIntegerField displayName fieldPath value = .ok n) ↔
      IsCount value := by
  simp only [validateChangeSetRequiredNonNegativeIntegerField, okOr_eq_ok, bind_asU64_eq_some, IsCount]

@[simp] theorem validateOptionalCount_eq_ok :
    (∃ n, validateChangeSetOptionalNonNegativeIntegerField displayName fieldPath value = .ok n) ↔
      OptionalCount value := by
  unfold validateChangeSetOptionalNonNegativeIntegerField OptionalCount
  rcases value with _ | v
  · simp
  · cases v with
    | null => simp
    | _ =>
      simp only [map_eq_ok, ← @validateRequiredCount_eq_ok displayName fieldPath, reduceCtorEq,
        some.injEq, false_or]
      exact ⟨fun ⟨_, n, h, _⟩ => ⟨n, h⟩, fun ⟨n, h⟩ => ⟨_, n, h, rfl⟩⟩

theorem validateAbsolutePath_eq_ok :
    (∃ path, validateChangeSetAbsolutePathField isAbsolute displayName fileIndex file fieldName =
      .ok path) ↔ IsAbsolutePath isAbsolute (file.get fieldName) := by
  simp only [validateChangeSetAbsolutePathField, bind_eq_ok, okOr_eq_ok, refuseIf_eq_ok,
    filter_eq_some_iff, map_eq_some_iff, bind_asStr_eq_some, IsAbsolutePath,
    pure_eq_ok, not_not]
  constructor
  · rintro ⟨_, path, ⟨⟨s, hs, rfl⟩, hne⟩, _, habs, _⟩
    exact ⟨s, hs, of_decide_eq_true hne, habs⟩
  · rintro ⟨s, hs, hne, habs⟩
    exact ⟨_, trim s, ⟨⟨s, hs, rfl⟩, decide_eq_true hne⟩, (), habs, rfl⟩

/-- An unused result of a check. -/
theorem bind_const_eq_ok {α β : Type} {x : Except String α} {y : Except String β} {b : β} :
    (x >>= fun _ => y) = .ok b ↔ (∃ a, x = .ok a) ∧ y = .ok b := by
  rw [bind_eq_ok]
  exact ⟨fun ⟨a, hx, hy⟩ => ⟨⟨a, hx⟩, hy⟩, fun ⟨⟨a, hx⟩, hy⟩ => ⟨a, hx, hy⟩⟩

/-- A scan with indices passes when each check does. -/
theorem forM_zipIdx_eq_ok {α : Type} (check : ℕ → α → Except String Unit) {P : α → Prop}
    (h : ∀ i a, check i a = .ok () ↔ P a) {l : List α} :
    (l.zipIdx.forM fun e => check e.2 e.1) = .ok u ↔ ∀ a ∈ l, P a := by
  constructor
  · intro hscan a ha
    obtain ⟨i, hi⟩ := getElem?_of_mem ha
    have hmem : (a, i) ∈ l.zipIdx := mem_zipIdx_iff_getElem?.2 hi
    exact (h i a).1 (forall_of_forM_eq_ok hscan (a, i) hmem)
  · intro hall
    refine forM_eq_ok fun e he => ?_
    have ha : e.1 ∈ l := mem_of_getElem? (mem_zipIdx_iff_getElem?.1 he)
    exact (h e.2 e.1).2 (hall e.1 ha)

section
variable {entryName : String}

/-- The scan of line records behind an entry at `previous`. -/
theorem validateLineEntries_eq_ok :
    validateLineEntries displayName fileIndex hunkIndex entryName entryIndex previous entries = .ok u ↔
      ∃ lines, Forall₂ LineEntry entries lines ∧ lines.Pairwise (· < ·) ∧
        (0 < entryIndex → ∀ line ∈ lines, previous < line) := by
  induction entries generalizing entryIndex previous with
  | nil => simp [validateLineEntries]
  | cons entry entries ih =>
    simp only [validateLineEntries, bind_eq_ok, okOr_eq_ok, refuseIf_eq_ok,
      filter_eq_some_iff, bind_eq_some_iff, Json.asObject_eq_some,
      validateRequiredString_eq_ok, ih]
    constructor
    · rintro ⟨fields, rfl, line, ⟨hline, hpos⟩, _, hafter, _, hcontent, lines, hentries, hsorted, hnext⟩
      have hbelow : ∀ line' ∈ lines, line < line' := hnext (Nat.succ_pos entryIndex)
      refine ⟨line :: lines, ?_, pairwise_cons.2 ⟨hbelow, hsorted⟩, fun hidx => ?_⟩
      · exact .cons ⟨⟨fields, rfl, hline, hcontent⟩, of_decide_eq_true hpos⟩ hentries
      · have hlt : previous < line := not_le.1 fun hle => hafter ⟨hidx, hle⟩
        exact forall_mem_cons.2 ⟨hlt, fun line' h => hlt.trans (hbelow line' h)⟩
    · rintro ⟨_, hall, hsorted, hafter⟩
      obtain ⟨line, lines, ⟨⟨fields, rfl, hline, hcontent⟩, hpos⟩, hentries, rfl⟩ :=
        forall₂_cons_left_iff.1 hall
      obtain ⟨hbelow, hsorted⟩ := pairwise_cons.1 hsorted
      refine ⟨fields, rfl, line, ⟨hline, decide_eq_true hpos⟩, (), ?_, (), hcontent, lines, hentries,
        hsorted, fun _ => hbelow⟩
      rintro ⟨hidx, hle⟩
      exact not_lt.2 hle (hafter hidx line mem_cons_self)

theorem validateHunkLineEntries_eq_ok :
    validateChangeSetHunkLineEntries displayName fileIndex hunkIndex entryName value = .ok n ↔
      ∃ entries, value = some (.array entries) ∧ LineEntries entries ∧ n = entries.length := by
  simp only [validateChangeSetHunkLineEntries, bind_eq_ok, okOr_eq_ok, bind_asArray_eq_some,
    validateLineEntries_eq_ok, lt_irrefl, false_implies, and_true, LineEntries, pure_eq_ok,
    ok.injEq, exists_const, eq_comm (a := n)]

end

theorem validateModifyHunk_eq_ok :
    validateChangeSetModifyHunk displayName fileIndex hunkIndex hunk = .ok u ↔ Hunk hunk := by
  simp only [validateChangeSetModifyHunk, bind_eq_ok, okOr_eq_ok, Json.asObject_eq_some,
    validateRequiredString_eq_ok, validateHunkLineEntries_eq_ok, refuseIf_eq_ok, Hunk]
  constructor
  · rintro ⟨fields, rfl, _, hbefore, _, hafter, _, ⟨deleted, hd, hdel, rfl⟩, _, ⟨inserted, hi, hins, rfl⟩,
      hsome⟩
    exact ⟨fields, rfl, hbefore, hafter, deleted, inserted, hd, hdel, hi, hins, by simpa using hsome⟩
  · rintro ⟨fields, rfl, hbefore, hafter, deleted, inserted, hd, hdel, hi, hins, hsome⟩
    exact ⟨fields, rfl, (), hbefore, (), hafter, _, ⟨deleted, hd, hdel, rfl⟩, _,
      ⟨inserted, hi, hins, rfl⟩, by simpa using hsome⟩

theorem validateModify_eq_ok :
    validateModify isAbsolute displayName fileIndex file = .ok u ↔
      IsAbsolutePath isAbsolute (file.get "path") ∧ ∃ hunks, file.get "hunks" = some (.array hunks) ∧
        hunks ≠ [] ∧ ∀ hunk ∈ hunks, Hunk hunk := by
  rw [validateModify, bind_const_eq_ok, validateAbsolutePath_eq_ok]
  refine and_congr_right fun _ => ?_
  have hscan : ∀ hunks : List Json, (hunks.zipIdx.forM fun hunk =>
      validateChangeSetModifyHunk displayName fileIndex hunk.2 hunk.1) = .ok u ↔
        ∀ hunk ∈ hunks, Hunk hunk :=
    fun hunks => forM_zipIdx_eq_ok (validateChangeSetModifyHunk displayName fileIndex)
      fun i hunk => validateModifyHunk_eq_ok
  simp only [bind_eq_ok, okOr_eq_ok, filter_eq_some_iff, Json.asArray_eq_some, hscan,
    decide_eq_true_eq]
  constructor
  · rintro ⟨_, hhunks, hunks, ⟨h, hne⟩, hshape⟩
    exact ⟨hunks, h ▸ hhunks, hne, hshape⟩
  · rintro ⟨hunks, hhunks, hne, hshape⟩
    exact ⟨_, hhunks, hunks, ⟨rfl, hne⟩, hshape⟩

theorem validateDelete_eq_ok :
    validateDelete isAbsolute displayName fileIndex file = .ok u ↔
      IsAbsolutePath isAbsolute (file.get "path") ∧ DeletedFields file := by
  simp only [validateDelete, bind_const_eq_ok, validateAbsolutePath_eq_ok]
  refine and_congr_right fun _ => ?_
  simp only [bind_eq_ok, validateChangeSetDeleteContentMode, okOr_eq_ok]
  have hcontent : validateDeleteContent displayName fileIndex file = .ok u ↔
      IsText (file.get "content") ∧ OptionalCount (file.get "total_line_count") := by
    simp [validateDeleteContent, bind_const_eq_ok, pure_eq_ok]
  have hsummary : validateDeleteSummary displayName fileIndex file = .ok u ↔
      IsCount (file.get "total_line_count") ∧ IsText (file.get "content_head") ∧
        IsText (file.get "content_tail") := by
    simp [validateDeleteSummary, bind_const_eq_ok]
  constructor
  · rintro ⟨mode, hmode, h⟩
    cases mode with
    | full => exact .content hmode (hcontent.1 h).1 (hcontent.1 h).2
    | truncated =>
      dsimp only at h
      split_ifs at h with hsome
      · exact .content hmode (hcontent.1 h).1 (hcontent.1 h).2
      · obtain ⟨htotal, hhead, htail⟩ := hsummary.1 h
        exact .summary hmode (by simpa using hsome) htotal hhead htail
  · rintro (⟨hmode, htext, htotal⟩ | ⟨hmode, hnone, htotal, hhead, htail⟩)
    · refine ⟨_, hmode, ?_⟩
      have hsome : (file.get "content").isSome := by
        obtain ⟨s, hs⟩ := htext
        rw [hs]; rfl
      split
      · exact hcontent.2 ⟨htext, htotal⟩
      · rw [if_pos hsome]
        exact hcontent.2 ⟨htext, htotal⟩
    · refine ⟨_, hmode, ?_⟩
      simp only [hnone, isSome_none, Bool.false_eq_true, if_false]
      exact hsummary.2 ⟨htotal, hhead, htail⟩

theorem validateFilePayload_eq_ok {record : Json} :
    validateChangeSetFilePayload isAbsolute displayName fileIndex record = .ok u ↔
      FileRecord isAbsolute DeletedFields record := by
  simp only [validateChangeSetFilePayload, bind_eq_ok, okOr_eq_ok, Json.asObject_eq_some,
    bind_asStr_eq_some, validateOptionalString_eq_ok, FileRecord]
  refine exists_congr fun fields => and_congr_right fun _ => ?_
  constructor
  · rintro ⟨change, hchange, _, hpatch, h⟩
    refine ⟨hpatch, change, hchange, ?_⟩
    split_ifs at h with hmodify hcreate hdelete hrename
    · rw [validateModify_eq_ok] at h
      obtain ⟨hpath, hunks, hhunks, hne, hshape⟩ := h
      exact hmodify ▸ .modify hpath hhunks hne hshape
    · simp only [validateCreate, bind_const_eq_ok, validateAbsolutePath_eq_ok,
        validateRequiredString_eq_ok] at h
      exact hcreate ▸ .create h.1 h.2
    · rw [validateDelete_eq_ok] at h
      exact hdelete ▸ .delete h.1 h.2
    · simp only [validateRename, bind_const_eq_ok, validateAbsolutePath_eq_ok] at h
      exact hrename ▸ .rename h.1 h.2.1
  · rintro ⟨hpatch, change, hchange, h⟩
    refine ⟨change, hchange, (), hpatch, ?_⟩
    cases h with
    | modify hpath hhunks hne hshape =>
      rw [if_pos rfl]
      exact validateModify_eq_ok.2 ⟨hpath, _, hhunks, hne, hshape⟩
    | create hpath hcontent =>
      rw [if_neg (by decide), if_pos rfl]
      simp only [validateCreate, bind_const_eq_ok, validateAbsolutePath_eq_ok,
        validateRequiredString_eq_ok]
      exact ⟨hpath, hcontent⟩
    | delete hpath hshape =>
      rw [if_neg (by decide), if_neg (by decide), if_pos rfl]
      exact validateDelete_eq_ok.2 ⟨hpath, hshape⟩
    | rename hold hnew =>
      rw [if_neg (by decide), if_neg (by decide), if_neg (by decide), if_pos rfl]
      simp only [validateRename, bind_const_eq_ok, validateAbsolutePath_eq_ok]
      exact ⟨hold, hnew, rfl⟩

theorem validateDiagnostics_eq_ok :
    validateDiagnostics displayName value = .ok u ↔ value = none ∨
      ∃ items, value = some (.array items) ∧ ∀ item ∈ items, Diagnostic item := by
  have hitem : ∀ i item, validateDiagnostic displayName i item = .ok () ↔ Diagnostic item := by
    intro i item
    simp only [validateDiagnostic, bind_eq_ok, okOr_eq_ok, Json.asObject_eq_some,
      bind_asStr_eq_some, Diagnostic, IsText, pure_eq_ok, and_true, exists_and_right]
  have hscan : ∀ items : List Json, (items.zipIdx.forM fun item =>
      validateDiagnostic displayName item.2 item.1) = .ok u ↔ ∀ item ∈ items, Diagnostic item :=
    fun items => forM_zipIdx_eq_ok (validateDiagnostic displayName) hitem
  cases value with
  | none => simp [validateDiagnostics]
  | some diagnostics =>
    simp only [validateDiagnostics, bind_eq_ok, okOr_eq_ok, Json.asArray_eq_some, hscan,
      reduceCtorEq, false_or, some.injEq]

/-- The validator accepts exactly the payloads of the right shape. -/
theorem validateChangeSetPayload_eq_ok : validateChangeSetPayload isAbsolute displayName payload = .ok u ↔
      ChangeSet (FileRecord isAbsolute DeletedFields) payload := by
  have hscan : ∀ (files : List Json) (u : Unit), (files.zipIdx.forM fun file =>
      validateChangeSetFilePayload isAbsolute displayName file.2 file.1) = .ok u ↔
        ∀ file ∈ files, FileRecord isAbsolute DeletedFields file :=
    fun files u => forM_zipIdx_eq_ok (validateChangeSetFilePayload isAbsolute displayName)
      fun i file => validateFilePayload_eq_ok
  simp only [validateChangeSetPayload, bind_eq_ok, okOr_eq_ok, Json.asObject_eq_some,
    Json.asArray_eq_some, bind_asStr_eq_some, refuseIf_eq_ok, validateOptionalString_eq_ok,
    validateDiagnostics_eq_ok, hscan, ChangeSet]
  refine exists_congr fun object => and_congr_right fun _ => ?_
  constructor
  · rintro ⟨mode, hmode, _, hname, _, hsummary, _, hfiles, files, rfl, _, hrecords, hdiagnostics⟩
    refine ⟨?_, hsummary, ⟨files, hfiles, hrecords⟩, hdiagnostics⟩
    by_cases hpreview : mode = "preview"
    · exact Or.inl (hpreview ▸ hmode)
    · exact Or.inr ((not_and_not_right.1 hname) hpreview ▸ hmode)
  · rintro ⟨hmode, hsummary, ⟨files, hfiles, hrecords⟩, hdiagnostics⟩
    obtain ⟨mode, hmode, hname⟩ :
        ∃ mode, object.get "mode" = some (.string mode) ∧ ¬ (mode ≠ "preview" ∧ mode ≠ "applied") := by
      obtain hmode | hmode := hmode
      · exact ⟨_, hmode, by simp⟩
      · exact ⟨_, hmode, by simp⟩
    exact ⟨mode, hmode, (), hname, (), hsummary, _, hfiles, files, rfl, (), hrecords, hdiagnostics⟩

end

end LuaSkills.HostResult
