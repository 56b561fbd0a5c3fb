import LuaSkills.Data.Json
import LuaSkills.Data.SortedMap
import Mathlib.Data.String.Basic

/-!
# Fields of an object

`Map` of an object without duplicate-preserving order: `get`, `insert` and `remove` on its list of
fields. A field is `Settled` once inserting it again changes nothing; it stays so under every
operation on another key, so a rewrite that inserts and removes fixed fields is idempotent
whatever the other fields are.
-/

namespace Json

open List

/-- The accessors of a value: its text, its non-negative integer, its 64-bit integer, its items. -/
def asStr : Json → Option String
  | .string s => some s
  | _ => none

/-- `as_u64`: a parsed non-negative integer always fits. -/
def asU64 : Json → Option ℕ
  | .number (.posInt n) => some n
  | _ => none

def asI64 : Json → Option ℤ
  | .number (.posInt n) => if n < 2 ^ 63 then some n else none
  | .number (.negInt n) => some (-(n + 1))
  | _ => none

def asArray : Json → Option (List Json)
  | .array items => some items
  | _ => none

/-- The fields of an object, by increasing key. -/
abbrev Fields := List (String × Json)

def asObject : Json → Option Fields
  | .object fields => some fields
  | _ => none

section
variable {v : Json}

@[simp] theorem asStr_eq_some : v.asStr = some s ↔ v = .string s := by
  cases v <;> simp [asStr]

@[simp] theorem asU64_eq_some : v.asU64 = some n ↔ v = .number (.posInt n) := by
  cases v with
  | number m => cases m <;> simp [asU64]
  | _ => simp [asU64]

@[simp] theorem asArray_eq_some : v.asArray = some items ↔ v = .array items := by
  cases v <;> simp [asArray]

@[simp] theorem asObject_eq_some : v.asObject = some fields ↔ v = .object fields := by
  cases v <;> simp [asObject]

end

namespace Fields
variable {key key' : String} {v w : Json} {fields : Fields}

def get (fields : Fields) (key : String) : Option Json := fields.lookup key

def insert (fields : Fields) (key : String) (v : Json) : Fields := SortedMap.insertEntry key v fields

def remove (fields : Fields) (key : String) : Fields := fields.filter fun e => e.1 ≠ key

@[simp] theorem get_insert_self : (fields.insert key v).get key = some v := by
  rw [get, insert, SortedMap.lookup_insertEntry, if_pos rfl]

theorem get_insert_of_ne (h : key' ≠ key) : (fields.insert key v).get key' = fields.get key' := by
  rw [get, insert, SortedMap.lookup_insertEntry, if_neg h, get]

@[simp] theorem get_remove_self : (fields.remove key).get key = none := by
  rw [get, lookup_eq_none_iff]
  intro e he
  have hkey : e.1 ≠ key := by simpa using (mem_filter.1 he).2
  exact bne_iff_ne.2 hkey.symm

theorem get_remove_of_ne (h : key' ≠ key) : (fields.remove key).get key' = fields.get key' := by
  simp only [get, remove]
  induction fields with
  | nil => rfl
  | cons e rest ih =>
    rw [filter_cons]
    split_ifs with he
    · rw [SortedMap.lookup_cons_eq, SortedMap.lookup_cons_eq, ih]
    · have hek : e.1 = key := by simpa using he
      rw [ih, SortedMap.lookup_cons_eq, if_neg (hek ▸ h)]

theorem remove_of_get_none (h : fields.get key = none) : fields.remove key = fields := by
  rw [remove, filter_eq_self]
  intro e he
  rw [get, lookup_eq_none_iff] at h
  exact decide_eq_true (Ne.symm (bne_iff_ne.1 (h e he)))

/-- The field is there, after smaller keys only. -/
def Settled (key : String) (v : Json) (fields : Fields) : Prop :=
  ∃ before after, fields = before ++ (key, v) :: after ∧ ∀ e ∈ before, e.1 < key

theorem Settled.cons {e : String × Json} (he : e.1 < key) (h : Settled key v fields) :
    Settled key v (e :: fields) := by
  obtain ⟨before, after, rfl, hbefore⟩ := h
  exact ⟨e :: before, after, rfl, forall_mem_cons.2 ⟨he, hbefore⟩⟩

theorem settled_insert : Settled key v (fields.insert key v) := by
  rw [insert]
  induction fields with
  | nil => exact ⟨[], [], rfl, by simp⟩
  | cons e rest ih =>
    simp only [SortedMap.insertEntry]
    split_ifs with hlt heq
    · exact ⟨[], e :: rest, rfl, by simp⟩
    · exact ⟨[], rest, rfl, by simp⟩
    · exact ih.cons (lt_of_le_of_ne (not_lt.1 hlt) (Ne.symm heq))

/-- Inserting a settled field changes nothing. -/
theorem Settled.insert_eq (h : Settled key v fields) : fields.insert key v = fields := by
  obtain ⟨before, after, rfl, hbefore⟩ := h
  rw [insert]
  induction before with
  | nil => simp [SortedMap.insertEntry]
  | cons e before ih =>
    obtain ⟨he, hbefore⟩ := forall_mem_cons.1 hbefore
    simp [SortedMap.insertEntry, not_lt_of_gt he, he.ne', ih hbefore]

theorem Settled.insert (h : Settled key v fields) (hne : key' ≠ key) :
    Settled key v (fields.insert key' w) := by
  obtain ⟨before, after, rfl, hbefore⟩ := h
  rw [Fields.insert]
  induction before with
  | nil =>
    simp only [nil_append, SortedMap.insertEntry]
    split_ifs with hlt
    · exact ⟨[(key', w)], after, rfl, by simpa using hlt⟩
    · exact ⟨[], _, rfl, by simp⟩
  | cons e before ih =>
    obtain ⟨he, hbefore⟩ := forall_mem_cons.1 hbefore
    simp only [cons_append, SortedMap.insertEntry]
    split_ifs with hlt heq
    · refine ⟨(key', w) :: e :: before, after, rfl, ?_⟩
      exact forall_mem_cons.2 ⟨hlt.trans he, forall_mem_cons.2 ⟨he, hbefore⟩⟩
    · exact ⟨(key', w) :: before, after, rfl, forall_mem_cons.2 ⟨heq ▸ he, hbefore⟩⟩
    · exact (ih hbefore).cons he

theorem Settled.remove (h : Settled key v fields) (hne : key' ≠ key) :
    Settled key v (fields.remove key') := by
  obtain ⟨before, after, rfl, hbefore⟩ := h
  refine ⟨Fields.remove before key', Fields.remove after key', ?_, ?_⟩
  · simp [Fields.remove, hne.symm]
  · exact fun e he => hbefore e (mem_of_mem_filter he)

end Fields

end Json
