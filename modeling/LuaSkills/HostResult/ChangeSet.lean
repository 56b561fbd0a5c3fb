import LuaSkills.Data.Fallible
import LuaSkills.Data.JsonFields
import LuaSkills.Data.TextLines
import LuaSkills.SkillConfig.Document

/-!
# Change sets

A tool call may return a `change_set` payload for the host. The payload is normalized first, which only
rewrites the records of deleted files, and what results is validated and delivered. Errors are the texts
the validator returns.
-/

namespace LuaSkills.HostResult

open Json (Fields)
open SkillConfig (trim)

inductive ChangeSetDeleteContentMode where
  | full
  | truncated
deriving DecidableEq

def changeSetDeleteTruncateLineLimit : ℕ := 500

def changeSetDeleteTruncatedEdgeLineCount : ℕ := 50

namespace ChangeSetDeleteContentMode

def asStr : ChangeSetDeleteContentMode → String
  | full => "full"
  | truncated => "truncated"

/-- A value that is not a text counts as absent. -/
def parse (value : Option Json) : Option ChangeSetDeleteContentMode :=
  match (value.bind Json.asStr).map trim with
  | none => some full
  | some text =>
    if text = "" ∨ text = full.asStr then some full
    else if text = truncated.asStr then some truncated
    else none

end ChangeSetDeleteContentMode

open ChangeSetDeleteContentMode (full truncated)

def normalizeChangeSetText (text : String) : String := Text.unifyLineEnds text

def splitChangeSetLines (text : String) : List String :=
  if text = "" then [] else (Text.lines text.toList).map String.ofList

/-! ## Normalization -/

/-- A record of a deleted file; spaces around the kind of change are ignored. -/
def isDelete (file : Fields) : Bool :=
  ((file.get "change").bind Json.asStr).map trim = some "delete"

def normalizeDeleteContent (file : Fields) (content : String) : Fields :=
  -- a mode that does not parse is taken for `full`, and overwritten below
  let requestedMode := (ChangeSetDeleteContentMode.parse (file.get "content_mode")).getD full
  let lines := splitChangeSetLines (normalizeChangeSetText content)
  let total := lines.length
  let file := file.insert "total_line_count" (.number (.posInt total))
  if requestedMode = truncated ∨ changeSetDeleteTruncateLineLimit < total then
    let headCount := min total changeSetDeleteTruncatedEdgeLineCount
    let tailCount := min changeSetDeleteTruncatedEdgeLineCount (total - headCount)
    let headLines := lines.take headCount
    let tailLines := if tailCount = 0 then [] else lines.drop (total - tailCount)
    (((file.insert "content_mode" (.string truncated.asStr)).insert "content_head"
      (.string (String.intercalate "\n" headLines))).insert "content_tail"
      (.string (String.intercalate "\n" tailLines))).remove "content"
  else
    ((file.insert "content_mode" (.string full.asStr)).remove "content_head").remove "content_tail"

def normalizeChangeSetDeleteFileFields (file : Fields) : Fields :=
  if isDelete file then
    match (file.get "content").bind Json.asStr with
    | some content => normalizeDeleteContent file content
    | none => file
  else file

def normalizeChangeSetDeleteFileRecord (file : Json) : Json :=
  match file.asObject with
  | some file => .object (normalizeChangeSetDeleteFileFields file)
  | none => file

def normalizeChangeSetPayload (payload : Json) : Json :=
  match payload.asObject with
  | some object =>
    match (object.get "files").bind Json.asArray with
    | some files =>
      .object (object.insert "files" (.array (files.map normalizeChangeSetDeleteFileRecord)))
    | none => payload
  | none => payload

/-! ## Validation -/

section
variable (isAbsolute : String → Bool) (displayName : String)

def skillError (text : String) : String := s!"Lua skill '{displayName}' {text}"

def filePath (fileIndex : ℕ) (field : String) : String := s!"change_set.files[{fileIndex}].{field}"

def hunkPath (fileIndex hunkIndex : ℕ) (field : String) : String :=
  filePath fileIndex s!"hunks[{hunkIndex}]{field}"

def validateChangeSetRequiredStringField (fieldPath : String) (value : Option Json) :
    Except String Unit :=
  match value with
  | some (.string _) => .ok ()
  | _ => .error (skillError displayName (fieldPath ++ " must be a string"))

/-- The check on `summary` and `patch`, which may also be absent or null. -/
def validateOptionalString (fieldPath : String) (value : Option Json) : Except String Unit :=
  match value with
  | none | some .null | some (.string _) => .ok ()
  | some _ => .error (skillError displayName (fieldPath ++ " must be a string when present"))

def validateChangeSetRequiredNonNegativeIntegerField (fieldPath : String) (value : Option Json) :
    Except String ℕ :=
  okOr (value.bind Json.asU64)
    (skillError displayName (fieldPath ++ " must be one non-negative integer"))

def validateChangeSetOptionalNonNegativeIntegerField (fieldPath : String) (value : Option Json) :
    Except String (Option ℕ) :=
  match value with
  | none | some .null => .ok none
  | some value =>
    some <$> validateChangeSetRequiredNonNegativeIntegerField displayName fieldPath (some value)

def validateChangeSetAbsolutePathField (fileIndex : ℕ) (file : Fields) (fieldName : String) :
    Except String String := do
  let path ← okOr ((((file.get fieldName).bind Json.asStr).map trim).filter (· ≠ ""))
    (skillError displayName (filePath fileIndex fieldName ++ " must be one non-empty string"))
  refuseIf (¬ isAbsolute path)
    (skillError displayName (filePath fileIndex fieldName ++ " must be absolute"))
  pure path

/-- The entries from `entryIndex` on, after one at `previousLine`. -/
def validateLineEntries (fileIndex hunkIndex : ℕ) (entryName : String) :
    ℕ → ℤ → List Json → Except String Unit
  | _, _, [] => .ok ()
  | entryIndex, previousLine, entry :: entries => do
    let entryPath := hunkPath fileIndex hunkIndex s!".{entryName}[{entryIndex}]"
    let entry ← okOr entry.asObject (skillError displayName s!"{entryPath} must be an object")
    let line ← okOr (((entry.get "line").bind Json.asI64).filter (0 < ·))
      (skillError displayName s!"{entryPath}.line must be one positive integer")
    refuseIf (0 < entryIndex ∧ line ≤ previousLine)
      (skillError displayName
        (hunkPath fileIndex hunkIndex ("." ++ entryName) ++ " line numbers must be strictly increasing"))
    validateChangeSetRequiredStringField displayName s!"{entryPath}.content" (entry.get "content")
    validateLineEntries fileIndex hunkIndex entryName (entryIndex + 1) line entries

def validateChangeSetHunkLineEntries (fileIndex hunkIndex : ℕ) (entryName : String)
    (value : Option Json) : Except String ℕ := do
  let entries ← okOr (value.bind Json.asArray)
    (skillError displayName (hunkPath fileIndex hunkIndex ("." ++ entryName) ++ " must be an array"))
  validateLineEntries displayName fileIndex hunkIndex entryName 0 0 entries
  pure entries.length

def validateChangeSetModifyHunk (fileIndex hunkIndex : ℕ) (hunk : Json) : Except String Unit := do
  let hunk ← okOr hunk.asObject
    (skillError displayName (hunkPath fileIndex hunkIndex "" ++ " must be an object"))
  validateChangeSetRequiredStringField displayName (hunkPath fileIndex hunkIndex ".before")
    (hunk.get "before")
  validateChangeSetRequiredStringField displayName (hunkPath fileIndex hunkIndex ".after")
    (hunk.get "after")
  let deletedCount ← validateChangeSetHunkLineEntries displayName fileIndex hunkIndex "delete"
    (hunk.get "delete")
  let insertedCount ← validateChangeSetHunkLineEntries displayName fileIndex hunkIndex "insert"
    (hunk.get "insert")
  refuseIf (deletedCount = 0 ∧ insertedCount = 0)
    (skillError displayName
      (hunkPath fileIndex hunkIndex "" ++ " must include at least one deleted or inserted line"))

def validateModify (fileIndex : ℕ) (file : Fields) : Except String Unit := do
  let _ ← validateChangeSetAbsolutePathField isAbsolute displayName fileIndex file "path"
  let hunks ← okOr (file.get "hunks")
    (skillError displayName
      (filePath fileIndex "hunks" ++ " must be present as one non-empty array for modify changes"))
  let hunks ← okOr (hunks.asArray.filter (· ≠ []))
    (skillError displayName
      (filePath fileIndex "hunks" ++ " must be a non-empty array for modify changes"))
  hunks.zipIdx.forM fun hunk => validateChangeSetModifyHunk displayName fileIndex hunk.2 hunk.1

def validateCreate (fileIndex : ℕ) (file : Fields) : Except String Unit := do
  let _ ← validateChangeSetAbsolutePathField isAbsolute displayName fileIndex file "path"
  validateChangeSetRequiredStringField displayName (filePath fileIndex "content") (file.get "content")

def validateChangeSetDeleteContentMode (fileIndex : ℕ) (file : Fields) :
    Except String ChangeSetDeleteContentMode :=
  okOr (ChangeSetDeleteContentMode.parse (file.get "content_mode"))
    (skillError displayName
      (filePath fileIndex "content_mode" ++ " must be '" ++ full.asStr ++ "' or '" ++ truncated.asStr ++ "'"))

/-- A content that is present, and the optional number of its lines. -/
def validateDeleteContent (fileIndex : ℕ) (file : Fields) : Except String Unit := do
  validateChangeSetRequiredStringField displayName (filePath fileIndex "content") (file.get "content")
  let _ ← validateChangeSetOptionalNonNegativeIntegerField displayName
    (filePath fileIndex "total_line_count") (file.get "total_line_count")

def validateDeleteSummary (fileIndex : ℕ) (file : Fields) : Except String Unit := do
  let _ ← validateChangeSetRequiredNonNegativeIntegerField displayName
    (filePath fileIndex "total_line_count") (file.get "total_line_count")
  validateChangeSetRequiredStringField displayName (filePath fileIndex "content_head")
    (file.get "content_head")
  validateChangeSetRequiredStringField displayName (filePath fileIndex "content_tail")
    (file.get "content_tail")

def validateDelete (fileIndex : ℕ) (file : Fields) : Except String Unit := do
  let _ ← validateChangeSetAbsolutePathField isAbsolute displayName fileIndex file "path"
  match ← validateChangeSetDeleteContentMode displayName fileIndex file with
  | full => validateDeleteContent displayName fileIndex file
  | truncated =>
    if (file.get "content").isSome then validateDeleteContent displayName fileIndex file
    else validateDeleteSummary displayName fileIndex file

def validateRename (fileIndex : ℕ) (file : Fields) : Except String Unit := do
  let _ ← validateChangeSetAbsolutePathField isAbsolute displayName fileIndex file "old_path"
  let _ ← validateChangeSetAbsolutePathField isAbsolute displayName fileIndex file "new_path"

def validateChangeSetFilePayload (fileIndex : ℕ) (file : Json) : Except String Unit := do
  let file ← okOr file.asObject
    (skillError displayName s!"change_set.files[{fileIndex}] must be an object")
  let change ← okOr ((file.get "change").bind Json.asStr)
    (skillError displayName (filePath fileIndex "change" ++ " must be a string"))
  validateOptionalString displayName (filePath fileIndex "patch") (file.get "patch")
  if change = "modify" then validateModify isAbsolute displayName fileIndex file
  else if change = "create" then validateCreate isAbsolute displayName fileIndex file
  else if change = "delete" then validateDelete isAbsolute displayName fileIndex file
  else if change = "rename" then validateRename isAbsolute displayName fileIndex file
  else .error (skillError displayName (filePath fileIndex "change" ++ " is unsupported"))

def validateDiagnostic (index : ℕ) (diagnostic : Json) : Except String Unit := do
  let diagnostic ← okOr diagnostic.asObject
    (skillError displayName s!"change_set.diagnostics[{index}] must be an object")
  let _ ← okOr ((diagnostic.get "level").bind Json.asStr)
    (skillError displayName s!"change_set.diagnostics[{index}].level must be a string")
  let _ ← okOr ((diagnostic.get "message").bind Json.asStr)
    (skillError displayName s!"change_set.diagnostics[{index}].message must be a string")

def validateDiagnostics (value : Option Json) : Except String Unit :=
  match value with
  | none => .ok ()
  | some diagnostics => do
    let diagnostics ← okOr diagnostics.asArray
      (skillError displayName "change_set.diagnostics must be an array when present")
    diagnostics.zipIdx.forM fun diagnostic => validateDiagnostic displayName diagnostic.2 diagnostic.1

def validateChangeSetPayload (payload : Json) : Except String Unit := do
  let object ← okOr payload.asObject
    (skillError displayName "must return change_set payload as an object")
  let mode ← okOr ((object.get "mode").bind Json.asStr)
    (skillError displayName "change_set.mode must be a string")
  refuseIf (mode ≠ "preview" ∧ mode ≠ "applied")
    (skillError displayName "change_set.mode must be 'preview' or 'applied'")
  validateOptionalString displayName "change_set.summary" (object.get "summary")
  let files ← okOr (object.get "files")
    (skillError displayName "change_set.files must be present as one array")
  let files ← okOr files.asArray (skillError displayName "change_set.files must be an array")
  files.zipIdx.forM fun file =>
    validateChangeSetFilePayload isAbsolute displayName file.2 file.1
  validateDiagnostics displayName (object.get "diagnostics")

end

end LuaSkills.HostResult
