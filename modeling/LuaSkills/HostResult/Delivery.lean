import LuaSkills.HostResult.Acceptance

/-!
# Delivered change sets

What normalization makes of the record of a deleted file, and which payloads are delivered. The record
of a deleted file whose content was supplied is rewritten whatever its content mode says, so the
validator, which runs afterwards, meets no mode the skill misspelt.
-/

namespace LuaSkills.HostResult

open List

open Json (Fields)
open SkillConfig (trim)
open ChangeSetDeleteContentMode (full truncated)

variable {isAbsolute : String → Bool} {displayName : String} {file : Fields} {content : String}
  {payload : Json} {object : Fields}

/-! ## The lines of a deleted file -/

/-- The logical lines of a content: CR LF, LF and CR each end one. -/
def changeSetLines (content : String) : List String :=
  (Text.logicalLines content.toList).map String.ofList

theorem splitChangeSetLines_eq (text : String) :
    splitChangeSetLines text = (Text.lines text.toList).map String.ofList := by
  unfold splitChangeSetLines
  split_ifs with h
  · subst h
    rfl
  · rfl

theorem splitChangeSetLines_normalize (content : String) :
    splitChangeSetLines (normalizeChangeSetText content) = changeSetLines content := by
  rw [splitChangeSetLines_eq, normalizeChangeSetText, Text.lines_unifyLineEnds, changeSetLines]

/-! ## Canonical records -/

structure FullRecord (file : Fields) : Prop where
  mode : file.get "content_mode" = some (.string "full")
  content : ∃ content, file.get "content" = some (.string content) ∧
    (changeSetLines content).length ≤ changeSetDeleteTruncateLineLimit ∧
    file.get "total_line_count" = some (.number (.posInt (changeSetLines content).length))
  head : file.get "content_head" = none
  tail : file.get "content_tail" = none

/-- The head and the tail are first and last lines of the content that do not overlap. -/
structure Summarizes (content : String) (file : Fields) : Prop where
  total : file.get "total_line_count" = some (.number (.posInt (changeSetLines content).length))
  edges : ∃ headCount tailCount,
    headCount ≤ changeSetDeleteTruncatedEdgeLineCount ∧
    tailCount ≤ changeSetDeleteTruncatedEdgeLineCount ∧
    headCount + tailCount =
      min (changeSetLines content).length (2 * changeSetDeleteTruncatedEdgeLineCount) ∧
    file.get "content_head" =
      some (.string (String.intercalate "\n" ((changeSetLines content).take headCount))) ∧
    file.get "content_tail" = some (.string (String.intercalate "\n"
      ((changeSetLines content).drop ((changeSetLines content).length - tailCount))))

structure TruncatedRecord (supplied file : Fields) : Prop where
  mode : file.get "content_mode" = some (.string "truncated")
  content : file.get "content" = none
  summary : ∀ content, supplied.get "content" = some (.string content) → Summarizes content file

/-! ## Normalization of one record -/

/-- Whether the content of a deleted file is cut out of its record. -/
def Truncates (file : Fields) (content : String) : Prop :=
  ChangeSetDeleteContentMode.parse (file.get "content_mode") = some truncated ∨
    changeSetDeleteTruncateLineLimit < (changeSetLines content).length

theorem requestedMode_eq_truncated : (ChangeSetDeleteContentMode.parse value).getD full = truncated ↔
      ChangeSetDeleteContentMode.parse value = some truncated := by
  cases ChangeSetDeleteContentMode.parse value <;> simp

theorem normalizeDeleteContent_of_truncates (h : Truncates file content) :
    ∃ headCount tailCount, headCount ≤ changeSetDeleteTruncatedEdgeLineCount ∧
      tailCount ≤ changeSetDeleteTruncatedEdgeLineCount ∧
      headCount + tailCount =
        min (changeSetLines content).length (2 * changeSetDeleteTruncatedEdgeLineCount) ∧
      normalizeDeleteContent file content =
        ((((file.insert "total_line_count"
            (.number (.posInt (changeSetLines content).length))).insert "content_mode"
          (.string "truncated")).insert "content_head"
          (.string (String.intercalate "\n" ((changeSetLines content).take headCount)))).insert
          "content_tail" (.string (String.intercalate "\n"
            ((changeSetLines content).drop ((changeSetLines content).length - tailCount))))).remove
          "content" := by
  have hedge : changeSetDeleteTruncatedEdgeLineCount = 50 := rfl
  refine ⟨min (changeSetLines content).length changeSetDeleteTruncatedEdgeLineCount,
    min changeSetDeleteTruncatedEdgeLineCount ((changeSetLines content).length -
      min (changeSetLines content).length changeSetDeleteTruncatedEdgeLineCount),
    by omega, by omega, by omega, ?_⟩
  have hcond : (ChangeSetDeleteContentMode.parse (file.get "content_mode")).getD full = truncated ∨
      changeSetDeleteTruncateLineLimit < (changeSetLines content).length :=
    h.imp_left requestedMode_eq_truncated.2
  simp only [normalizeDeleteContent, splitChangeSetLines_normalize]
  rw [if_pos hcond]
  -- an empty tail is what dropping every line leaves
  split_ifs with hnone
  · rw [hnone, Nat.sub_zero, drop_length]
    rfl
  · rfl

theorem normalizeDeleteContent_of_not_truncates (h : ¬ Truncates file content) :
    normalizeDeleteContent file content =
      (((file.insert "total_line_count"
        (.number (.posInt (changeSetLines content).length))).insert "content_mode"
        (.string "full")).remove "content_head").remove "content_tail" := by
  have hcond : ¬ ((ChangeSetDeleteContentMode.parse (file.get "content_mode")).getD full = truncated ∨
      changeSetDeleteTruncateLineLimit < (changeSetLines content).length) :=
    fun hc => h (hc.imp_left requestedMode_eq_truncated.1)
  simp only [normalizeDeleteContent, splitChangeSetLines_normalize]
  rw [if_neg hcond]
  rfl

theorem normalizeDeleteContent_get (htotal : key ≠ "total_line_count") (hmode : key ≠ "content_mode")
    (hhead : key ≠ "content_head") (htail : key ≠ "content_tail") (hcontent : key ≠ "content") :
    (normalizeDeleteContent file content).get key = file.get key := by
  by_cases h : Truncates file content
  · obtain ⟨headCount, tailCount, -, -, -, heq⟩ := normalizeDeleteContent_of_truncates h
    rw [heq, Fields.get_remove_of_ne hcontent, Fields.get_insert_of_ne htail,
      Fields.get_insert_of_ne hhead, Fields.get_insert_of_ne hmode, Fields.get_insert_of_ne htotal]
  · rw [normalizeDeleteContent_of_not_truncates h, Fields.get_remove_of_ne htail,
      Fields.get_remove_of_ne hhead, Fields.get_insert_of_ne hmode, Fields.get_insert_of_ne htotal]

theorem truncatedRecord_normalize (hcontent : file.get "content" = some (.string content))
    (h : Truncates file content) : TruncatedRecord file (normalizeDeleteContent file content) := by
  obtain ⟨headCount, tailCount, hheadCount, htailCount, hcount, heq⟩ :=
    normalizeDeleteContent_of_truncates h
  rw [heq]
  refine ⟨?_, Fields.get_remove_self, fun content' hcontent' => ?_⟩
  · rw [Fields.get_remove_of_ne (by decide), Fields.get_insert_of_ne (by decide),
      Fields.get_insert_of_ne (by decide), Fields.get_insert_self]
  · obtain rfl : content = content' := by simpa [hcontent] using hcontent'
    refine ⟨?_, headCount, tailCount, hheadCount, htailCount, hcount, ?_, ?_⟩
    · rw [Fields.get_remove_of_ne (by decide), Fields.get_insert_of_ne (by decide),
        Fields.get_insert_of_ne (by decide), Fields.get_insert_of_ne (by decide),
        Fields.get_insert_self]
    · rw [Fields.get_remove_of_ne (by decide), Fields.get_insert_of_ne (by decide),
        Fields.get_insert_self]
    · rw [Fields.get_remove_of_ne (by decide), Fields.get_insert_self]

theorem fullRecord_normalize (hcontent : file.get "content" = some (.string content))
    (h : ¬ Truncates file content) : FullRecord (normalizeDeleteContent file content) := by
  rw [normalizeDeleteContent_of_not_truncates h]
  refine ⟨?_, ⟨content, ?_, not_lt.1 fun hlt => h (Or.inr hlt), ?_⟩, ?_, Fields.get_remove_self⟩
  · rw [Fields.get_remove_of_ne (by decide), Fields.get_remove_of_ne (by decide),
      Fields.get_insert_self]
  · rw [Fields.get_remove_of_ne (by decide), Fields.get_remove_of_ne (by decide),
      Fields.get_insert_of_ne (by decide), Fields.get_insert_of_ne (by decide), hcontent]
  · rw [Fields.get_remove_of_ne (by decide), Fields.get_remove_of_ne (by decide),
      Fields.get_insert_of_ne (by decide), Fields.get_insert_self]
  · rw [Fields.get_remove_of_ne (by decide), Fields.get_remove_self]

/-- What normalization writes is left alone by a second normalization. -/
theorem normalizeDeleteContent_idem (hcontent : file.get "content" = some (.string content))
    (h : ¬ Truncates file content) :
    normalizeDeleteContent (normalizeDeleteContent file content) content =
      normalizeDeleteContent file content := by
  have hfull := fullRecord_normalize hcontent h
  have hagain : ¬ Truncates (normalizeDeleteContent file content) content := by
    rintro (hmode | hlong)
    · rw [hfull.mode] at hmode
      exact absurd hmode (by decide)
    · exact h (Or.inr hlong)
  have htotal : Fields.Settled "total_line_count"
      (.number (.posInt (changeSetLines content).length)) (normalizeDeleteContent file content) := by
    rw [normalizeDeleteContent_of_not_truncates h]
    exact ((Fields.settled_insert.insert (by decide)).remove (by decide)).remove (by decide)
  have hmode : Fields.Settled "content_mode" (.string "full") (normalizeDeleteContent file content) := by
    rw [normalizeDeleteContent_of_not_truncates h]
    exact (Fields.settled_insert.remove (by decide)).remove (by decide)
  rw [normalizeDeleteContent_of_not_truncates hagain, htotal.insert_eq, hmode.insert_eq,
    Fields.remove_of_get_none hfull.head, Fields.remove_of_get_none hfull.tail]

theorem isDelete_normalizeDeleteContent : isDelete (normalizeDeleteContent file content) = isDelete file := by
  rw [isDelete, normalizeDeleteContent_get (by decide) (by decide) (by decide) (by decide) (by decide),
    isDelete]

theorem normalizeFields_of_content (hdelete : isDelete file)
    (hcontent : file.get "content" = some (.string content)) :
    normalizeChangeSetDeleteFileFields file = normalizeDeleteContent file content := by
  rw [normalizeChangeSetDeleteFileFields, if_pos hdelete, hcontent]
  rfl

theorem normalizeFields_of_no_content (hcontent : ¬ IsText (file.get "content")) :
    normalizeChangeSetDeleteFileFields file = file := by
  have hnone : (file.get "content").bind Json.asStr = none := by
    rw [Option.eq_none_iff_forall_ne_some]
    exact fun content h => hcontent ⟨content, bind_asStr_eq_some.1 h⟩
  unfold normalizeChangeSetDeleteFileFields
  rw [hnone]
  exact ite_self file

theorem normalizeFields_of_not_delete (h : ¬ isDelete file) :
    normalizeChangeSetDeleteFileFields file = file :=
  if_neg h

theorem normalizeFields_idem (file : Fields) :
    normalizeChangeSetDeleteFileFields (normalizeChangeSetDeleteFileFields file) =
      normalizeChangeSetDeleteFileFields file := by
  by_cases hdelete : isDelete file
  · by_cases hcontent : IsText (file.get "content")
    · obtain ⟨content, hcontent⟩ := hcontent
      rw [normalizeFields_of_content hdelete hcontent]
      by_cases h : Truncates file content
      · -- the content is gone
        apply normalizeFields_of_no_content
        rintro ⟨_, hs⟩
        rw [(truncatedRecord_normalize hcontent h).content] at hs
        cases hs
      · have hcontent' : (normalizeDeleteContent file content).get "content" =
            some (.string content) := by
          rw [normalizeDeleteContent_of_not_truncates h, Fields.get_remove_of_ne (by decide),
            Fields.get_remove_of_ne (by decide), Fields.get_insert_of_ne (by decide),
            Fields.get_insert_of_ne (by decide), hcontent]
        rw [normalizeFields_of_content (isDelete_normalizeDeleteContent.trans hdelete) hcontent',
          normalizeDeleteContent_idem hcontent h]
    · rw [normalizeFields_of_no_content hcontent, normalizeFields_of_no_content hcontent]
  · rw [normalizeFields_of_not_delete hdelete, normalizeFields_of_not_delete hdelete]

theorem normalizeRecord_idem (record : Json) :
    normalizeChangeSetDeleteFileRecord (normalizeChangeSetDeleteFileRecord record) =
      normalizeChangeSetDeleteFileRecord record := by
  cases record with
  | object fields =>
    exact congrArg Json.object (normalizeFields_idem fields)
  | _ => rfl

/-! ## Normalization of a payload -/

/-- The file records of a payload. -/
def changeSetFiles (payload : Json) : List Json :=
  (((payload.asObject).bind fun object => object.get "files").bind Json.asArray).getD []

theorem changeSetFiles_normalize (payload : Json) :
    changeSetFiles (normalizeChangeSetPayload payload) =
      (changeSetFiles payload).map normalizeChangeSetDeleteFileRecord := by
  unfold normalizeChangeSetPayload
  cases payload with
  | object object =>
    simp only [Json.asObject]
    cases h : (Fields.get object "files").bind Json.asArray with
    | none => simp [changeSetFiles, Json.asObject, h]
    | some files => simp [changeSetFiles, Json.asObject, h, Json.asArray]
  | _ => rfl

theorem normalizeChangeSetPayload_of_files (h : object.get "files" = some (.array files)) :
    normalizeChangeSetPayload (.object object) =
      .object (object.insert "files" (.array (files.map normalizeChangeSetDeleteFileRecord))) := by
  simp only [normalizeChangeSetPayload, Json.asObject, bind_asArray_eq_some.2 h]

theorem normalizeChangeSetPayload_of_no_files
    (h : ¬ ∃ files, object.get "files" = some (.array files)) :
    normalizeChangeSetPayload (.object object) = .object object := by
  have hnone : (object.get "files").bind Json.asArray = none := by
    rw [Option.eq_none_iff_forall_ne_some]
    exact fun files hfiles => h ⟨files, bind_asArray_eq_some.1 hfiles⟩
  simp only [normalizeChangeSetPayload, Json.asObject, hnone]

theorem normalizeChangeSetPayload_idem (payload : Json) :
    normalizeChangeSetPayload (normalizeChangeSetPayload payload) =
      normalizeChangeSetPayload payload := by
  cases payload with
  | object object =>
    by_cases h : ∃ files, Fields.get object "files" = some (.array files)
    · obtain ⟨files, hfiles⟩ := h
      rw [normalizeChangeSetPayload_of_files hfiles,
        normalizeChangeSetPayload_of_files Fields.get_insert_self, map_map,
        show normalizeChangeSetDeleteFileRecord ∘ normalizeChangeSetDeleteFileRecord =
          normalizeChangeSetDeleteFileRecord from funext normalizeRecord_idem,
        Fields.settled_insert.insert_eq]
    · rw [normalizeChangeSetPayload_of_no_files h, normalizeChangeSetPayload_of_no_files h]
  | _ => rfl

/-! ## What is delivered -/

/-- What the skill must supply for a deleted file: its content, under any mode, or its summary. -/
inductive SuppliedFields (file : Fields) : Prop
  | content (content : IsText (file.get "content"))
  | summary {mode : String} (present : file.get "content_mode" = some (.string mode))
      (named : trim mode = "truncated") (content : file.get "content" = none)
      (total : IsCount (file.get "total_line_count")) (head : IsText (file.get "content_head"))
      (tail : IsText (file.get "content_tail"))

theorem parse_eq_truncated : ChangeSetDeleteContentMode.parse value = some truncated ↔
      ∃ mode, value = some (.string mode) ∧ trim mode = "truncated" := by
  simp only [ChangeSetDeleteContentMode.parse, ← bind_asStr_eq_some]
  cases value.bind Json.asStr with
  | none => simp
  | some mode =>
    simp only [Option.map_some, Option.some.injEq, exists_eq_left']
    have hname : truncated.asStr = "truncated" := rfl
    split_ifs with hfull htruncated
    · have hne : trim mode ≠ "truncated" := by
        intro h
        rw [h] at hfull
        exact absurd hfull (by decide)
      simp [hne]
    · simpa [hname] using htruncated
    · simpa [hname] using htruncated

/-- A deleted file passes the validator after normalization exactly when enough was supplied. -/
theorem deletedFields_normalize (hdelete : isDelete file) :
    DeletedFields (normalizeChangeSetDeleteFileFields file) ↔ SuppliedFields file := by
  by_cases hcontent : IsText (file.get "content")
  · refine iff_of_true ?_ (.content hcontent)
    obtain ⟨content, hcontent⟩ := hcontent
    rw [normalizeFields_of_content hdelete hcontent]
    by_cases h : Truncates file content
    · have htruncated := truncatedRecord_normalize hcontent h
      obtain ⟨htotal, _, _, _, _, _, hhead, htail⟩ := htruncated.summary content hcontent
      refine .summary ?_ htruncated.content ⟨_, htotal⟩ ⟨_, hhead⟩ ⟨_, htail⟩
      exact parse_eq_truncated.2 ⟨_, htruncated.mode, by decide⟩
    · have hfull := fullRecord_normalize hcontent h
      obtain ⟨content', hcontent', -, htotal⟩ := hfull.content
      have hparsed : ChangeSetDeleteContentMode.parse (some (.string "full")) = some full := by decide
      exact .content (hfull.mode ▸ hparsed) ⟨_, hcontent'⟩ (Or.inr (Or.inr ⟨_, htotal⟩))
  · rw [normalizeFields_of_no_content hcontent]
    constructor
    · rintro (⟨-, h, -⟩ | ⟨hmode, hnone, htotal, hhead, htail⟩)
      · exact absurd h hcontent
      · obtain ⟨mode, hmode, hnamed⟩ := parse_eq_truncated.1 hmode
        exact .summary hmode hnamed hnone htotal hhead htail
    · rintro (h | ⟨hmode, hnamed, hnone, htotal, hhead, htail⟩)
      · exact absurd h hcontent
      · exact .summary (parse_eq_truncated.2 ⟨_, hmode, hnamed⟩) hnone htotal hhead htail

theorem normalizeFields_get (htotal : key ≠ "total_line_count") (hmode : key ≠ "content_mode")
    (hhead : key ≠ "content_head") (htail : key ≠ "content_tail") (hcontent : key ≠ "content") :
    (normalizeChangeSetDeleteFileFields file).get key = file.get key := by
  unfold normalizeChangeSetDeleteFileFields
  split
  · split
    · exact normalizeDeleteContent_get htotal hmode hhead htail hcontent
    · rfl
  · rfl

theorem Change.imp {deleted' : Fields → Prop} {change : String} (h : Change isAbsolute deleted file change)
    (hdeleted : change = "delete" → deleted file → deleted' file) :
    Change isAbsolute deleted' file change := by
  cases h with
  | modify path present nonempty shape => exact .modify path present nonempty shape
  | create path content => exact .create path content
  | delete path shape => exact .delete path (hdeleted rfl shape)
  | rename old new => exact .rename old new

/-- What the record of a deletion needs, however its kind of change is spaced. -/
theorem fileFields_of_isDelete (hdelete : isDelete file) :
    FileFields isAbsolute deleted file ↔ OptionalText (file.get "patch") ∧
      file.get "change" = some (.string "delete") ∧
      IsAbsolutePath isAbsolute (file.get "path") ∧ deleted file := by
  constructor
  · rintro ⟨hpatch, change, hchange, h⟩
    cases h with
    | delete path shape => exact ⟨hpatch, hchange, path, shape⟩
    | _ =>
      -- the other kinds do not trim to `delete`
      rw [isDelete, hchange] at hdelete
      exact absurd hdelete (by decide)
  · rintro ⟨hpatch, hchange, hpath, hshape⟩
    exact ⟨hpatch, _, hchange, .delete hpath hshape⟩

/-- The validator reads a record as a deletion only when normalization did. -/
theorem isDelete_of_change (h : file.get "change" = some (.string "delete")) : isDelete file := by
  rw [isDelete, h]
  decide

theorem fileFields_normalize :
    FileFields isAbsolute DeletedFields (normalizeChangeSetDeleteFileFields file) ↔
      FileFields isAbsolute SuppliedFields file := by
  by_cases hdelete : isDelete file
  · have hget : ∀ key ∈ ["patch", "change", "path"],
        (normalizeChangeSetDeleteFileFields file).get key = file.get key := by
      simp only [mem_cons, not_mem_nil, or_false]
      rintro key (rfl | rfl | rfl)
      all_goals apply normalizeFields_get <;> decide
    have hshape : ∀ deleted, FileFields isAbsolute deleted file ↔ OptionalText (file.get "patch") ∧
        file.get "change" = some (.string "delete") ∧
        IsAbsolutePath isAbsolute (file.get "path") ∧ deleted file :=
      fun deleted => fileFields_of_isDelete hdelete
    have hdelete' : isDelete (normalizeChangeSetDeleteFileFields file) := by
      rwa [isDelete, hget _ (by simp)]
    rw [hshape, fileFields_of_isDelete hdelete', hget _ (by simp), hget _ (by simp), hget _ (by simp),
      deletedFields_normalize hdelete]
  · have hne : file.get "change" ≠ some (.string "delete") := fun h => hdelete (isDelete_of_change h)
    rw [normalizeFields_of_not_delete hdelete]
    constructor
    · rintro ⟨hpatch, change, hchange, h⟩
      exact ⟨hpatch, change, hchange, h.imp fun heq _ => absurd (heq ▸ hchange) hne⟩
    · rintro ⟨hpatch, change, hchange, h⟩
      exact ⟨hpatch, change, hchange, h.imp fun heq _ => absurd (heq ▸ hchange) hne⟩

theorem fileRecord_normalize {record : Json} :
    FileRecord isAbsolute DeletedFields (normalizeChangeSetDeleteFileRecord record) ↔
      FileRecord isAbsolute SuppliedFields record := by
  cases record with
  | object file =>
    simp only [FileRecord, normalizeChangeSetDeleteFileRecord, Json.asObject, Json.object.injEq,
      exists_eq_left', fileFields_normalize]
  | _ => simp [FileRecord, normalizeChangeSetDeleteFileRecord, Json.asObject]

theorem changeSetFields_insert_files : ChangeSetFields record (object.insert "files" (.array files)) ↔
      (object.get "mode" = some (.string "preview") ∨ object.get "mode" = some (.string "applied")) ∧
      OptionalText (object.get "summary") ∧ (∀ file ∈ files, record file) ∧
      (object.get "diagnostics" = none ∨
        ∃ items, object.get "diagnostics" = some (.array items) ∧ ∀ item ∈ items, Diagnostic item) := by
  have hget : ∀ key ∈ ["mode", "summary", "diagnostics"],
      (object.insert "files" (.array files)).get key = object.get key := by
    simp only [mem_cons, not_mem_nil, or_false]
    rintro key (rfl | rfl | rfl)
    all_goals exact Fields.get_insert_of_ne (by decide)
  constructor
  · rintro ⟨hmode, hsummary, ⟨files', hfiles, hrecords⟩, hdiagnostics⟩
    rw [Fields.get_insert_self] at hfiles
    rw [hget _ (by simp)] at hmode hsummary hdiagnostics
    cases hfiles
    exact ⟨hmode, hsummary, hrecords, hdiagnostics⟩
  · rintro ⟨hmode, hsummary, hrecords, hdiagnostics⟩
    refine ⟨?_, ?_, ⟨files, Fields.get_insert_self, hrecords⟩, ?_⟩
    · rwa [hget _ (by simp)]
    · rwa [hget _ (by simp)]
    · rwa [hget _ (by simp)]

/-- The validator accepts the normalized payload exactly when the skill supplied enough. -/
theorem changeSet_normalize :
    ChangeSet (FileRecord isAbsolute DeletedFields) (normalizeChangeSetPayload payload) ↔
      ChangeSet (FileRecord isAbsolute SuppliedFields) payload := by
  cases payload with
  | object object =>
    by_cases h : ∃ files, Fields.get object "files" = some (.array files)
    · obtain ⟨files, hfiles⟩ := h
      rw [normalizeChangeSetPayload_of_files hfiles]
      simp only [ChangeSet, Json.object.injEq, exists_eq_left', changeSetFields_insert_files,
        forall_mem_map, fileRecord_normalize]
      constructor
      · rintro ⟨hmode, hsummary, hrecords, hdiagnostics⟩
        exact ⟨hmode, hsummary, ⟨files, hfiles, hrecords⟩, hdiagnostics⟩
      · rintro ⟨hmode, hsummary, ⟨files', hfiles', hrecords⟩, hdiagnostics⟩
        rw [hfiles] at hfiles'
        cases hfiles'
        exact ⟨hmode, hsummary, hrecords, hdiagnostics⟩
    · rw [normalizeChangeSetPayload_of_no_files h]
      have hrefused : ∀ record, ¬ ChangeSet record (.object object) := by
        rintro record ⟨_, heq, -, -, ⟨files, hfiles, -⟩, -⟩
        cases heq
        exact h ⟨files, hfiles⟩
      exact iff_of_false (hrefused _) (hrefused _)
  | _ => simp [ChangeSet, normalizeChangeSetPayload, Json.asObject]

theorem delivered_iff :
    validateChangeSetPayload isAbsolute displayName (normalizeChangeSetPayload payload) = .ok u ↔
      ChangeSet (FileRecord isAbsolute SuppliedFields) payload :=
  validateChangeSetPayload_eq_ok.trans changeSet_normalize

/-- A record of a deleted file. -/
def IsDeleteRecord (record : Json) : Prop := ∃ file : Fields, record = .object file ∧ isDelete file

/-- The content mode is absent or one of the two names. -/
def NamedMode (record : Json) : Prop :=
  ∀ file : Fields, record = .object file → file.get "content_mode" = none ∨
    file.get "content_mode" = some (.string "full") ∨
    file.get "content_mode" = some (.string "truncated")

/-- A record of a deleted file as it should reach the host. -/
def CanonicalRecord (supplied delivered : Json) : Prop :=
  ∃ suppliedFile file : Fields, supplied = .object suppliedFile ∧ delivered = .object file ∧
    (FullRecord file ∨ TruncatedRecord suppliedFile file)

/-- What is promised of the change sets that are delivered. -/
structure Canonical (isAbsolute : String → Bool) (displayName : String) (payload : Json) : Prop where
  idempotent : normalizeChangeSetPayload (normalizeChangeSetPayload payload) =
    normalizeChangeSetPayload payload
  untouched : ∀ (i : ℕ) (record : Json), (changeSetFiles payload)[i]? = some record → ¬ IsDeleteRecord record →
    (changeSetFiles (normalizeChangeSetPayload payload))[i]? = some record
  canonical : validateChangeSetPayload isAbsolute displayName (normalizeChangeSetPayload payload) =
      .ok () →
    ∀ (i : ℕ) (supplied delivered : Json), (changeSetFiles payload)[i]? = some supplied →
      (changeSetFiles (normalizeChangeSetPayload payload))[i]? = some delivered →
      IsDeleteRecord delivered → CanonicalRecord supplied delivered
  refused : ∀ record ∈ changeSetFiles payload, IsDeleteRecord record → ¬ NamedMode record →
    validateChangeSetPayload isAbsolute displayName (normalizeChangeSetPayload payload) ≠ .ok ()

theorem normalizeRecord_of_not_delete {record : Json} (h : ¬ IsDeleteRecord record) :
    normalizeChangeSetDeleteFileRecord record = record := by
  cases record with
  | object file =>
    have hdelete : ¬ isDelete file := fun hdelete => h ⟨file, rfl, hdelete⟩
    exact congrArg Json.object (normalizeFields_of_not_delete hdelete)
  | _ => rfl

theorem canonicalRecord_of_named (hdelete : isDelete file) (hsupplied : SuppliedFields file)
    (hnamed : NamedMode (.object file)) :
    CanonicalRecord (.object file) (.object (normalizeChangeSetDeleteFileFields file)) := by
  refine ⟨file, _, rfl, rfl, ?_⟩
  cases hsupplied with
  | content hcontent =>
    obtain ⟨content, hcontent⟩ := hcontent
    rw [normalizeFields_of_content hdelete hcontent]
    by_cases h : Truncates file content
    · exact Or.inr (truncatedRecord_normalize hcontent h)
    · exact Or.inl (fullRecord_normalize hcontent h)
  | @summary mode hmode hname hnone htotal hhead htail =>
    have hexact : mode = "truncated" := by
      obtain h | h | h := hnamed file rfl
      · rw [h] at hmode
        cases hmode
      · rw [h] at hmode
        cases hmode
        exact absurd hname (by decide)
      · rw [h] at hmode
        cases hmode
        rfl
    have htext : ¬ IsText (file.get "content") := by
      rintro ⟨s, hs⟩
      rw [hnone] at hs
      cases hs
    rw [normalizeFields_of_no_content htext]
    refine Or.inr ⟨hexact ▸ hmode, hnone, fun content hcontent => ?_⟩
    exact absurd ⟨content, hcontent⟩ htext

theorem suppliedFields_of_changeSet (h : ChangeSet (FileRecord isAbsolute SuppliedFields) payload)
    (hmem : Json.object file ∈ changeSetFiles payload) (hdelete : isDelete file) :
    SuppliedFields file := by
  obtain ⟨object, rfl, -, -, ⟨files, hfiles, hrecords⟩, -⟩ := h
  have hlist : changeSetFiles (.object object) = files := by
    simp [changeSetFiles, Json.asObject, hfiles, Json.asArray]
  obtain ⟨_, heq, hfields⟩ := hrecords _ (hlist ▸ hmem)
  cases heq
  exact ((fileFields_of_isDelete hdelete).1 hfields).2.2.2

/-- What is delivered is canonical exactly when no payload with enough in it names another mode. -/
theorem canonical_iff :
    Canonical isAbsolute displayName payload ↔
      (ChangeSet (FileRecord isAbsolute SuppliedFields) payload →
        ∀ record ∈ changeSetFiles payload, IsDeleteRecord record → NamedMode record) := by
  constructor
  · intro h haccepted record hmem hdelete
    by_contra hnamed
    exact h.refused record hmem hdelete hnamed (delivered_iff.2 haccepted)
  · intro h
    refine ⟨normalizeChangeSetPayload_idem payload, fun i record hi hdelete => ?_,
      fun hok i supplied delivered hi hdelivered hdelete => ?_, fun record hmem hdelete hnamed hok => ?_⟩
    · rw [changeSetFiles_normalize, getElem?_map, hi, Option.map_some,
        normalizeRecord_of_not_delete hdelete]
    · have haccepted := delivered_iff.1 hok
      rw [changeSetFiles_normalize, getElem?_map, hi, Option.map_some, Option.some.injEq]
        at hdelivered
      have hmem : supplied ∈ changeSetFiles payload := mem_of_getElem? hi
      have hsupplied : IsDeleteRecord supplied := by
        by_contra hnot
        rw [← hdelivered, normalizeRecord_of_not_delete hnot] at hdelete
        exact hnot hdelete
      obtain ⟨file, rfl, hfile⟩ := hsupplied
      subst hdelivered
      exact canonicalRecord_of_named hfile (suppliedFields_of_changeSet haccepted hmem hfile)
        (h haccepted _ hmem ⟨file, rfl, hfile⟩)
    · exact hnamed (h (delivered_iff.1 hok) record hmem hdelete)

/-- A deletion under a mode that does not exist. -/
def misnamedPayload : Json :=
  .object [("files", .array [.object [("change", .string "delete"), ("content", .string "a"),
    ("content_mode", .string "bogus"), ("path", .string "/a")]]), ("mode", .string "applied")]

/-- It is delivered, as a record with the whole content. -/
theorem not_canonical_misnamed :
    ¬ Canonical (Text.startsWith · "/") "skill" misnamedPayload := by
  intro h
  refine h.refused _ mem_cons_self ⟨_, rfl, by decide⟩ ?_ (by decide)
  intro hnamed
  obtain h | h | h := hnamed _ rfl
  all_goals exact absurd h (by decide)

end LuaSkills.HostResult
