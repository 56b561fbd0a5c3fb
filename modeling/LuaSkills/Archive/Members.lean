import Mathlib.Data.List.DropRight
import LuaSkills.Dependency.Installer

/-!
# Members of archives

How the name of an archive member is compared with the path that an export declares: both with forward
slashes and without slashes at the ends, and the name also without its first component.
-/

namespace LuaSkills.Archive

open List

/-- A member whose name could be decoded. -/
structure Member where
  name : String
  bytes : List UInt8
deriving DecidableEq

/-! ## Matching -/

def normalizeArchiveEntryMatchPath (raw : String) : String :=
  Text.trimEndMatches '/' (Text.trimStartMatches '/' (Text.replace raw "\\" "/"))

def stripOneLeadingArchiveComponent (normalizedPath : String) : Option String :=
  match (Text.split '/' normalizedPath).filter (· ≠ "") with
  | [] => none
  | _ :: remainder => if remainder = [] then none else some (String.intercalate "/" remainder)

def archiveEntryMatchesExport (entryPath exportArchivePath : String) : Bool :=
  let normalizedEntry := normalizeArchiveEntryMatchPath entryPath
  let normalizedExport := normalizeArchiveEntryMatchPath exportArchivePath
  normalizedEntry = normalizedExport ||
    stripOneLeadingArchiveComponent normalizedEntry = some normalizedExport

/-- An exact match anywhere comes before a match behind a leading directory. -/
def resolveZipExportEntryIndex (entries : List Member) (expectedArchivePath : String) : Option ℕ :=
  let expected := normalizeArchiveEntryMatchPath expectedArchivePath
  let normalizedNames := entries.map fun entry => normalizeArchiveEntryMatchPath entry.name
  match normalizedNames.findIdx? (· = expected) with
  | some index => some index
  | none => normalizedNames.findIdx? fun name => stripOneLeadingArchiveComponent name = some expected

/-- `ZipArchive::by_index` of the resolved index. -/
def zipEntry (entries : List Member) (expectedArchivePath : String) : Option Member :=
  (resolveZipExportEntryIndex entries expectedArchivePath).bind (entries[·]?)

namespace Member

def Exact (member : Member) (declared : String) : Prop :=
  normalizeArchiveEntryMatchPath member.name = normalizeArchiveEntryMatchPath declared

def Stripped (member : Member) (declared : String) : Prop :=
  stripOneLeadingArchiveComponent (normalizeArchiveEntryMatchPath member.name) =
    some (normalizeArchiveEntryMatchPath declared)

instance (member : Member) (declared : String) : Decidable (member.Exact declared) :=
  inferInstanceAs (Decidable (_ = _))

instance (member : Member) (declared : String) : Decidable (member.Stripped declared) :=
  inferInstanceAs (Decidable (_ = _))

/-- `normalize_tar_entry_match_path` and the comparison after it. -/
def matchesExport (member : Member) (declared : String) : Bool :=
  archiveEntryMatchesExport (normalizeArchiveEntryMatchPath member.name) declared

end Member

/-! ## Normal names -/

theorem replaceFrom_backslash (cs : List Char) :
    Text.replaceFrom ['\\'] ['/'] 0 cs = cs.map fun c => if c = '\\' then '/' else c := by
  induction cs with
  | nil => rfl
  | cons c cs ih =>
    rw [Text.replaceFrom, map_cons]
    by_cases hc : c = '\\'
    · subst hc
      simpa using ih
    · simp [hc, ih, Ne.symm hc]

theorem toList_normalize (raw : String) : (normalizeArchiveEntryMatchPath raw).toList =
    ((raw.toList.map fun c => if c = '\\' then '/' else c).dropWhile (· = '/')).rdropWhile (· = '/') := by
  rw [normalizeArchiveEntryMatchPath, Text.trimEndMatches, Text.trimStartMatches, Text.replace,
    String.toList_ofList, String.toList_ofList, String.toList_ofList]
  rw [show "\\".toList = ['\\'] from rfl, show "/".toList = ['/'] from rfl, replaceFrom_backslash]
  rfl

/-- Trimming at the start does nothing to a beginning of a text that was trimmed there. -/
theorem dropWhile_of_begins {α : Type} {test : α → Bool} {l cs : List α}
    (h : l <+: cs.dropWhile test) : l.dropWhile test = l := by
  cases l with
  | nil => rfl
  | cons c l =>
    obtain ⟨rest, hrest⟩ := h
    have hdrop := dropWhile_idempotent test cs
    rw [← hrest, cons_append, dropWhile_cons] at hdrop
    split at hdrop
    next htest =>
      have hle := (dropWhile_suffix test (l := l ++ rest)).length_le
      rw [hdrop, length_cons] at hle
      omega
    next htest => exact dropWhile_cons_of_neg htest

theorem normalize_normalize (raw : String) :
    normalizeArchiveEntryMatchPath (normalizeArchiveEntryMatchPath raw) =
      normalizeArchiveEntryMatchPath raw := by
  apply String.toList_injective
  have hraw := toList_normalize raw
  generalize hcs : raw.toList.map (fun c => if c = '\\' then '/' else c) = cs at hraw
  have hbackslash : ∀ c ∈ cs, c ≠ '\\' := by
    intro c hc
    rw [← hcs] at hc
    obtain ⟨c', -, rfl⟩ := mem_map.1 hc
    split
    · decide
    next h => exact h
  have hbegins := rdropWhile_prefix (· = '/') (cs.dropWhile (· = '/'))
  have hmap : ((cs.dropWhile (· = '/')).rdropWhile (· = '/')).map
      (fun c => if c = '\\' then '/' else c) = (cs.dropWhile (· = '/')).rdropWhile (· = '/') := by
    rw [map_congr_left (g := id), map_id]
    intro c hc
    have hmem := (dropWhile_suffix (· = '/')).subset (hbegins.subset hc)
    exact if_neg (hbackslash c hmem)
  rw [toList_normalize, hraw, hmap, dropWhile_of_begins hbegins, rdropWhile_idempotent]

/-! ## The member of an export -/

namespace Member
variable {member : Member} {declared : String}

theorem matchesExport_iff :
    member.matchesExport declared = true ↔ member.Exact declared ∨ member.Stripped declared := by
  rw [matchesExport, archiveEntryMatchesExport, normalize_normalize, Bool.or_eq_true,
    decide_eq_true_eq, decide_eq_true_eq]
  rfl

end Member

section
variable {entries : List Member} {member : Member} {declared : String}

theorem findIdx?_bind (test : α → Bool) (l : List α) : (l.findIdx? test).bind (l[·]?) = l.find? test := by
  induction l with
  | nil => rfl
  | cons a l ih =>
    rw [findIdx?_cons, find?_cons]
    cases test a with
    | true => rfl
    | false =>
      rw [← ih]
      cases l.findIdx? test with
      | none => rfl
      | some i => rfl

theorem zipEntry_eq (entries : List Member) (declared : String) :
    zipEntry entries declared =
      (entries.find? fun m => m.Exact declared).or (entries.find? fun m => m.Stripped declared) := by
  rw [← findIdx?_bind, ← findIdx?_bind, zipEntry, resolveZipExportEntryIndex]
  have hexact : ((fun x => decide (x = normalizeArchiveEntryMatchPath declared)) ∘
      fun entry : Member => normalizeArchiveEntryMatchPath entry.name) =
        fun m => decide (m.Exact declared) := by
    funext m
    rw [Function.comp_apply, decide_eq_decide, Member.Exact]
  have hstripped : ((fun name => decide (stripOneLeadingArchiveComponent name =
      some (normalizeArchiveEntryMatchPath declared))) ∘
      fun entry : Member => normalizeArchiveEntryMatchPath entry.name) =
        fun m => decide (m.Stripped declared) := by
    funext m
    rw [Function.comp_apply, decide_eq_decide, Member.Stripped]
  simp only [findIdx?_map, hexact, hstripped]
  cases h : entries.findIdx? fun m => decide (m.Exact declared) with
  | none => rfl
  | some i =>
    have hlt := (findIdx?_eq_some_iff_getElem.1 h).1
    simp [getElem?_eq_getElem hlt]

theorem zipEntry_eq_some (h : zipEntry entries declared = some member) : member ∈ entries ∧
    (member.Exact declared ∨ (∀ m ∈ entries, ¬ m.Exact declared) ∧ member.Stripped declared) := by
  rw [zipEntry_eq, Option.or_eq_some_iff] at h
  rcases h with h | ⟨hnone, h⟩
  · have hexact := find?_some h
    rw [decide_eq_true_eq] at hexact
    exact ⟨mem_of_find?_eq_some h, .inl hexact⟩
  · have hstripped := find?_some h
    rw [decide_eq_true_eq] at hstripped
    refine ⟨mem_of_find?_eq_some h, .inr ⟨fun m hm => ?_, hstripped⟩⟩
    have hno := find?_eq_none.1 hnone m hm
    rwa [decide_eq_true_eq] at hno

theorem zipEntry_isSome :
    (zipEntry entries declared).isSome ↔ ∃ m ∈ entries, m.matchesExport declared = true := by
  rw [zipEntry_eq, Option.isSome_or, Bool.or_eq_true, find?_isSome, find?_isSome]
  simp only [Member.matchesExport_iff, and_or_left, exists_or, decide_eq_true_eq]

end

end LuaSkills.Archive
