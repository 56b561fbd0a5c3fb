import LuaSkills.Embedded.Journal.Record

/-!
# Serializers that agree with given texts

A `Serde` that renders the listed records by given documents and every other record by some document
of its own. It stands for the linked serializer on fixed inputs: the lists hold the bytes `serde_json`
prints for them and the digests and lengths of those bytes.
-/

namespace LuaSkills.Embedded

structure SerdeEntry where
  record : JournalOperation
  document : List UInt8
  digest : List UInt8

/-- Records with their documents, and snapshots with the lengths of theirs. -/
structure SerdeTable where
  records : List SerdeEntry
  snapshots : List (OperationSnapshot × ℕ)
  documents_nodup : (records.map SerdeEntry.document).Nodup
  documents_object : ∀ e ∈ records, e.document.head? = some 0x7b

namespace SerdeTable
variable (table : SerdeTable)

noncomputable def index : JournalOperation → ℕ :=
  Classical.choose (Countable.exists_injective_nat JournalOperation)

theorem index_inj : Function.Injective index :=
  Classical.choose_spec (Countable.exists_injective_nat JournalOperation)

/-- The document of a record that is not listed; no JSON text starts like it. -/
noncomputable def unlisted (r : JournalOperation) : List UInt8 :=
  0xff :: List.replicate (index r) 0xff

theorem unlisted_inj (h : unlisted r = unlisted r') : r = r' := by
  refine index_inj ?_
  simpa [unlisted] using congrArg List.length h

noncomputable def encode (r : JournalOperation) : List UInt8 :=
  match table.records.find? fun e => e.record = r with
  | some e => e.document
  | none => unlisted r

open Classical in
noncomputable def decode (bytes : List UInt8) : Option JournalOperation :=
  match table.records.find? fun e => e.document = bytes with
  | some e => some e.record
  | none => if h : ∃ r, unlisted r = bytes then some (Classical.choose h) else none

theorem decode_encode (r : JournalOperation) : table.decode (table.encode r) = some r := by
  unfold encode
  cases hr : table.records.find? fun e => e.record = r with
  | some e =>
    have hmem := List.mem_of_find?_eq_some hr
    obtain rfl : e.record = r := by simpa using List.find?_some hr
    have hfind : table.records.find? (fun e' => e'.document = e.document) = some e := by
      cases hf : table.records.find? fun e' => e'.document = e.document with
      | none => simpa using List.find?_eq_none.1 hf e hmem
      | some e' =>
        have he' := List.mem_of_find?_eq_some hf
        have heq : e'.document = e.document := by simpa using List.find?_some hf
        rw [List.inj_on_of_nodup_map table.documents_nodup he' hmem heq]
    simp only [decode, hfind]
  | none =>
    have hfind : table.records.find? (fun e => e.document = unlisted r) = none := by
      refine List.find?_eq_none.2 fun e he h => ?_
      have hhead := table.documents_object e he
      rw [of_decide_eq_true h] at hhead
      simp [unlisted] at hhead
    have hex : ∃ r', unlisted r' = unlisted r := ⟨r, rfl⟩
    simp only [decode, hfind, dif_pos hex, Option.some.injEq]
    exact unlisted_inj (Classical.choose_spec hex)

/-- The serializer; lengths of values that no listed text mentions are immaterial. -/
noncomputable def serde : Serde where
  valueSize _ := 0
  errorSize _ := 0
  textSize text := text.utf8ByteSize
  effectSize _ := 0
  snapshotSize s :=
    match table.snapshots.find? fun e => e.1 = s with
    | some e => e.2
    | none => 0
  reconciliationSize _ := 0
  encode := table.encode
  decode := table.decode
  decode_encode := table.decode_encode
  digest bytes :=
    match table.records.find? fun e => e.document = bytes with
    | some e => e.digest
    | none => bytes.take 32

end SerdeTable

end LuaSkills.Embedded
