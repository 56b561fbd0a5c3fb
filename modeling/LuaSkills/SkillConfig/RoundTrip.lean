import LuaSkills.Data.TextTable
import LuaSkills.SkillConfig.Format

/-!
# What is written is read back
-/

namespace LuaSkills.SkillConfig

open List Except Nat

/-! ## Revision texts -/

theorem digitChar_of_isDigit {c : Char} (h : c.isDigit = true) :
    c.toNat - 48 < 10 ∧ (c.toNat - 48).digitChar = c := by
  obtain ⟨hlow, hhigh⟩ := Char.isDigit_iff_toNat.1 h
  simp only [Char.reduceToNat] at hlow hhigh
  have hlt : c.toNat - 48 < 10 := by omega
  refine ⟨hlt, Char.toNat_inj.1 ?_⟩
  rw [toNat_digitChar_of_lt_ten hlt]
  omega

theorem toDigits_ofDigitChars (hne : l ≠ []) (hdigit : ∀ c ∈ l, c.isDigit = true)
    (hzero : 1 < l.length → l.head? ≠ some '0') : toDigits 10 (ofDigitChars 10 l 0) = l := by
  induction l using reverseRecOn with
  | nil => exact absurd rfl hne
  | append_singleton front c ih =>
    obtain ⟨hlt, hchar⟩ := digitChar_of_isDigit (hdigit c (by simp))
    have hlast : toDigits 10 (c.toNat - 48) = [c] := by
      rw [toDigits_of_lt_base hlt, hchar]
    rw [ofDigitChars_append, ofDigitChars_cons, ofDigitChars_nil]
    simp only [Char.reduceToNat]
    by_cases hfront : front = []
    · subst hfront
      simpa using hlast
    · have hlen : 0 < front.length := length_pos_iff.2 hfront
      have hhead : front.head? ≠ some '0' := by
        have := hzero (by simpa using hlen)
        rwa [head?_append_of_ne_nil _ hfront] at this
      have hih := ih hfront (fun c hc => hdigit c (by simp [hc])) fun _ => hhead
      -- a positive prefix: otherwise its only digit is the zero it must not start with
      have hpos : 0 < ofDigitChars 10 front 0 := by
        refine pos_of_ne_zero fun h0 => hhead ?_
        rw [h0, toDigits_zero] at hih
        rw [← hih]
        rfl
      rw [← toDigits_append_toDigits (by decide) hpos hlt, hih, hlast]

theorem head?_toDigits (hn : 0 < n) : (toDigits 10 n).head? ≠ some '0' := by
  induction n using Nat.strongRecOn with
  | ind n ih =>
    by_cases hlt : n < 10
    · rw [toDigits_of_lt_base hlt]
      simp [pos_iff_ne_zero.1 hn]
    · rw [Nat.toDigits_of_base_le (by decide) (Nat.le_of_not_lt hlt),
        head?_append_of_ne_nil _ toDigits_ne_nil]
      exact ih (n / 10) (by omega) (by omega)

theorem isCanonicalDecimal_repr (n : ℕ) : isCanonicalDecimal n.repr = true := by
  have hdigits : n.repr.toList = toDigits 10 n := toList_repr
  have hall : n.repr.toList.all Char.isDigit = true := by
    rw [all_eq_true, hdigits]
    exact fun c hc => isDigit_of_mem_toDigits (by decide) (by decide) hc
  have hzero : ¬ (1 < n.repr.utf8ByteSize ∧ n.repr.toList.head? = some '0') := by
    rintro ⟨hlen, hhead⟩
    rcases Nat.eq_zero_or_pos n with rfl | hpos
    · exact absurd hlen (by decide)
    · exact head?_toDigits hpos (hdigits ▸ hhead)
  simp only [isCanonicalDecimal, hall, Bool.and_true, Bool.and_eq_true, decide_eq_true_eq]
  refine ⟨repr_ne_empty, ?_⟩
  rw [← Bool.decide_and, Bool.not_eq_true', decide_eq_false_iff_not]
  exact hzero

theorem parseRevisionText_revisionText (revision : UInt64) :
    parseRevisionText (revisionText revision) = .ok revision := by
  have hlt : ¬ 2 ^ 64 ≤ revision.toNat := not_le.2 revision.toNat_lt
  simp only [parseRevisionText, revisionText, isCanonicalDecimal_repr, toList_repr,
    ofDigitChars_ten_toDigits, refuseIf_of_not hlt, ok_bind,
    refuseIf_of_not (c := (true = false)) nofun, UInt64.ofNat_toNat]
  rfl

theorem length_le_utf8Len (l : List Char) : l.length ≤ String.utf8Len l := by
  induction l with
  | nil => exact le_refl _
  | cons c rest ih =>
    have := c.utf8Size_pos
    rw [length_cons, String.utf8Len_cons]
    omega

theorem eq_revisionText_of_parse (h : parseRevisionText text = .ok revision) :
    text = revisionText revision := by
  simp only [parseRevisionText, bind_eq_ok, refuseIf_eq_ok, Bool.not_eq_false, not_le,
    exists_and_left, exists_const, pure_eq_ok, ok.injEq] at h
  obtain ⟨hcanonical, hlt, rfl⟩ := h
  simp only [isCanonicalDecimal, Bool.and_eq_true, decide_eq_true_eq, all_eq_true,
    Bool.not_eq_true', Bool.and_eq_false_iff, decide_eq_false_iff_not] at hcanonical
  obtain ⟨⟨hne, hdigit⟩, hzero⟩ := hcanonical
  have hlist : text.toList ≠ [] := fun h0 => hne (String.toList_eq_nil_iff.1 h0)
  have hdigits : toDigits 10 (ofDigitChars 10 text.toList 0) = text.toList := by
    refine toDigits_ofDigitChars hlist hdigit fun hlen => ?_
    rcases hzero with hsize | hhead
    · have hle := length_le_utf8Len text.toList
      rw [String.utf8Len_toList] at hle
      omega
    · exact hhead
  rw [revisionText, UInt64.toNat_ofNat_of_lt' hlt, ← String.toList_inj, toList_repr, hdigits]

/-! ## The visitors read what is printed -/

section
variable {V : Type} {duplicate : String} {visit : Json → ConfigResult V}

theorem visitMap_print {p : V → Json} (hvisit : ∀ v, visit (p v) = .ok v)
    {l : List (String × V)} {map : SortedMap String V} (hnodup : (l.map Prod.fst).Nodup)
    (hnew : ∀ e ∈ l, map.lookup e.1 = none) :
    visitMap duplicate visit (l.map fun e => (e.1, p e.2)) map =
      .ok (l.foldl (fun m e => m.insert e.1 e.2) map) := by
  induction l generalizing map with
  | nil => rfl
  | cons e rest ih =>
    rw [map_cons, nodup_cons] at hnodup
    have hfresh : ¬ (map.lookup e.1).isSome = true := by
      rw [hnew e mem_cons_self]
      exact Bool.false_ne_true
    simp only [map_cons, visitMap, refuseIf_of_not hfresh, hvisit, ok_bind,
      foldl_cons]
    refine ih hnodup.2 fun e' he' => ?_
    have hne : e'.1 ≠ e.1 := fun h => hnodup.1 (h ▸ mem_map_of_mem he')
    rw [SortedMap.lookup_insert_of_ne hne]
    exact hnew e' (mem_cons_of_mem e he')

theorem visitMap_entries {p : V → Json} (hvisit : ∀ v, visit (p v) = .ok v)
    (m : SortedMap String V) :
    visitMap duplicate visit (m.entries.map fun e => (e.1, p e.2)) ∅ = .ok m := by
  rw [visitMap_print hvisit m.keys_nodup fun e _ => SortedMap.lookup_empty,
    SortedMap.foldl_insert_entries]

/-- No member is repeated, and each is one the visitor accepts. -/
theorem visitMap_strict {fields : List (String × Json)} {map result : SortedMap String V}
    (h : visitMap duplicate visit fields map = .ok result) :
    (fields.map Prod.fst).Nodup ∧
      ∀ e ∈ fields, map.lookup e.1 = none ∧ ∃ v, visit e.2 = .ok v := by
  induction fields generalizing map with
  | nil => exact ⟨nodup_nil, fun e he => nomatch he⟩
  | cons e rest ih =>
    simp only [visitMap, bind_eq_ok, refuseIf_eq_ok] at h
    obtain ⟨-, hfresh, value, hvalue, hrest⟩ := h
    obtain ⟨hnodup, hmem⟩ := ih hrest
    have hnew : map.lookup e.1 = none := by simpa using hfresh
    have hne : ∀ e' ∈ rest, e'.1 ≠ e.1 := by
      intro e' he' heq
      have := (hmem e' he').1
      rw [heq, SortedMap.lookup_insert_self] at this
      cases this
    refine ⟨?_, fun e' he' => ?_⟩
    · rw [map_cons, nodup_cons]
      refine ⟨fun hin => ?_, hnodup⟩
      obtain ⟨e', he', heq⟩ := mem_map.1 hin
      exact hne e' he' heq
    · obtain rfl | he' := mem_cons.1 he'
      · exact ⟨hnew, value, hvalue⟩
      · obtain ⟨hlookup, haccepted⟩ := hmem e' he'
        rw [SortedMap.lookup_insert_of_ne (hne e' he')] at hlookup
        exact ⟨hlookup, haccepted⟩

end

theorem deserializeValues_print (values : SortedMap String String) :
    deserializeValues (valuesToJson values) = .ok values :=
  visitMap_entries (p := Json.string) (fun _ => rfl) values

theorem deserializeNamespaces_print (skills : SortedMap String (SortedMap String String)) :
    deserializeNamespaces (skillsToJson skills) = .ok skills :=
  visitMap_entries deserializeValues_print skills

theorem visitU32_print (n : UInt32) : visitU32 (.number (.posInt n.toNat)) = .ok n := by
  have hlt : n.toNat < 2 ^ 32 := n.toNat_lt
  simp only [visitU32, if_pos hlt, UInt32.ofNat_toNat]

theorem deserializeDocument_print (d : SkillConfigDocument) :
    deserializeDocument d.toJson = .ok d := by
  simp only [SkillConfigDocument.toJson, deserializeDocument, visitDocument, visitField,
    DocumentFields.none, visitU32_print, visitString, parseRevisionText_revisionText,
    deserializeNamespaces_print, ok_bind]
  rfl

theorem printable_values (values : SortedMap String String) {depth : ℕ} :
    Printable (depth + 1) (valuesToJson values) := by
  intro e he
  obtain ⟨entry, -, rfl⟩ := mem_map.1 he
  simp only [Printable]

theorem printable_skills (skills : SortedMap String (SortedMap String String)) {depth : ℕ} :
    Printable (depth + 2) (skillsToJson skills) := by
  intro e he
  obtain ⟨entry, -, rfl⟩ := mem_map.1 he
  exact printable_values entry.2

theorem printable_toJson (d : SkillConfigDocument) : Printable 127 d.toJson := by
  intro e he
  simp only [mem_cons, not_mem_nil, or_false] at he
  obtain rfl | rfl | rfl := he
  · have hlt : d.formatVersion.toNat < 2 ^ 32 := d.formatVersion.toNat_lt
    simp only [Printable]
    omega
  · simp only [Printable]
  · exact printable_skills d.skills

/-! ## What the visitors accept -/

def configDocumentFields : List String := ["format_version", "revision", "skills"]

/-- The member of that name has been read. -/
def DocumentFields.Has (seen : DocumentFields) (field : String) : Prop :=
  (field = "format_version" ∧ seen.formatVersion.isSome = true) ∨
    (field = "revision" ∧ seen.revision.isSome = true) ∨
    (field = "skills" ∧ seen.skills.isSome = true)

/-- What reading one member does. -/
structure Visited (field : String) (v : Json) (seen seen' : DocumentFields) : Prop where
  known : field ∈ configDocumentFields
  fresh : ¬ seen.Has field
  has : ∀ name, seen'.Has name ↔ name = field ∨ seen.Has name
  revision : ∀ r, seen'.revision = some r → seen.revision = some r ∨
    field = "revision" ∧ ∃ text, v = .string text ∧ parseRevisionText text = .ok r
  skills : ∀ m, seen'.skills = some m → seen.skills = some m ∨
    field = "skills" ∧ deserializeNamespaces v = .ok m

theorem visitString_eq_ok (h : visitString v = .ok s) : v = .string s := by
  cases v with
  | string s' => exact congrArg Json.string (ok.inj h)
  | _ => cases h

theorem visitField_visited (h : visitField field v seen = .ok seen') : Visited field v seen seen' := by
  unfold visitField at h
  split at h
  · simp only [bind_eq_ok, refuseIf_eq_ok] at h
    obtain ⟨-, hnew, n, hn, h⟩ := h
    cases h
    refine ⟨by decide, by simp [DocumentFields.Has, hnew], fun name => ?_, fun r hr => Or.inl hr,
      fun m hm => Or.inl hm⟩
    simp [DocumentFields.Has, hnew]
  · simp only [bind_eq_ok, refuseIf_eq_ok] at h
    obtain ⟨-, hnew, text, htext, revision, hrevision, h⟩ := h
    cases h
    refine ⟨by decide, by simp [DocumentFields.Has, hnew], fun name => ?_, fun r hr => Or.inr ?_,
      fun m hm => Or.inl hm⟩
    · simp [DocumentFields.Has, hnew]
      grind
    · cases hr
      exact ⟨rfl, text, visitString_eq_ok htext, hrevision⟩
  · simp only [bind_eq_ok, refuseIf_eq_ok] at h
    obtain ⟨-, hnew, skills, hskills, h⟩ := h
    cases h
    refine ⟨by decide, by simp [DocumentFields.Has, hnew], fun name => ?_, fun r hr => Or.inl hr,
      fun m hm => Or.inr ?_⟩
    · simp [DocumentFields.Has, hnew]
      grind
    · cases hm
      exact ⟨rfl, hskills⟩
  · cases h

theorem visitDocument_strict (h : visitDocument fields seen = .ok seen') :
    (∀ e ∈ fields, e.1 ∈ configDocumentFields ∧ ¬ seen.Has e.1) ∧
      (fields.map Prod.fst).Nodup ∧
      (∀ r, seen'.revision = some r →
        seen.revision = some r ∨ ("revision", .string (revisionText r)) ∈ fields) ∧
      ∀ m, seen'.skills = some m →
        seen.skills = some m ∨ ∃ v, ("skills", v) ∈ fields ∧ deserializeNamespaces v = .ok m := by
  induction fields generalizing seen with
  | nil =>
    cases h
    exact ⟨fun e he => absurd he not_mem_nil, nodup_nil, fun r hr => Or.inl hr,
      fun m hm => Or.inl hm⟩
  | cons e rest ih =>
    simp only [visitDocument, bind_eq_ok] at h
    obtain ⟨next, hfield, hrest⟩ := h
    have hvisited := visitField_visited hfield
    obtain ⟨hknown, hnodup, hrevision, hskills⟩ := ih hrest
    refine ⟨fun e' he' => ?_, ?_, fun r hr => ?_, fun m hm => ?_⟩
    · obtain rfl | he' := mem_cons.1 he'
      · exact ⟨hvisited.known, hvisited.fresh⟩
      · obtain ⟨hname, hnew⟩ := hknown e' he'
        exact ⟨hname, fun hhas => hnew ((hvisited.has e'.1).2 (Or.inr hhas))⟩
    · rw [map_cons, nodup_cons]
      refine ⟨fun hin => ?_, hnodup⟩
      obtain ⟨e', he', heq⟩ := mem_map.1 hin
      exact (hknown e' he').2 ((hvisited.has e'.1).2 (Or.inl heq))
    · rcases hrevision r hr with hnext | hin
      · rcases hvisited.revision r hnext with hseen | ⟨hname, text, hv, hparse⟩
        · exact Or.inl hseen
        · refine Or.inr (mem_cons.2 (Or.inl ?_))
          rw [← eq_revisionText_of_parse hparse, ← hname, ← hv]
      · exact Or.inr (mem_cons_of_mem e hin)
    · rcases hskills m hm with hnext | ⟨v, hin, hv⟩
      · rcases hvisited.skills m hnext with hseen | ⟨hname, hv⟩
        · exact Or.inl hseen
        · exact Or.inr ⟨e.2, mem_cons.2 (Or.inl (by rw [← hname])), hv⟩
      · exact Or.inr ⟨v, mem_cons_of_mem e hin, hv⟩

/-- An object of three known members, each once, with the revision of `d` in its canonical text and
packages and keys that are not repeated. -/
structure StrictInput (fields packages : List (String × Json)) (d : SkillConfigDocument) : Prop where
  known : ∀ e ∈ fields, e.1 ∈ configDocumentFields
  nodup : (fields.map Prod.fst).Nodup
  revision : ("revision", .string (revisionText d.revision)) ∈ fields
  skills : ("skills", .object packages) ∈ fields
  packages_nodup : (packages.map Prod.fst).Nodup
  values : ∀ package ∈ packages, ∃ values, package.2 = .object values ∧
    (values.map Prod.fst).Nodup ∧ ∀ entry ∈ values, ∃ text, entry.2 = .string text

theorem deserializeValues_strict {v : Json} {values : SortedMap String String}
    (h : deserializeValues v = .ok values) :
    ∃ fields, v = .object fields ∧ (fields.map Prod.fst).Nodup ∧
      ∀ entry ∈ fields, ∃ text, entry.2 = .string text := by
  cases v with
  | object fields =>
    obtain ⟨hnodup, hmem⟩ := visitMap_strict h
    refine ⟨fields, rfl, hnodup, fun entry hentry => ?_⟩
    obtain ⟨-, text, htext⟩ := hmem entry hentry
    exact ⟨text, visitString_eq_ok htext⟩
  | _ => cases h

theorem deserializeDocument_strict {v : Json} {d : SkillConfigDocument}
    (h : deserializeDocument v = .ok d) :
    ∃ fields packages, v = .object fields ∧ StrictInput fields packages d := by
  cases v with
  | object fields =>
    simp only [deserializeDocument, bind_eq_ok, okOr_eq_ok] at h
    obtain ⟨seen, hvisit, formatVersion, -, revision, hrevision, skills, hskills, h⟩ := h
    cases h
    obtain ⟨hknown, hnodup, hrevisions, hnamespaces⟩ := visitDocument_strict hvisit
    have htext := (hrevisions revision hrevision).resolve_left (by rintro ⟨⟩)
    obtain ⟨w, hw, hvalues⟩ := (hnamespaces skills hskills).resolve_left (by rintro ⟨⟩)
    cases w with
    | object packages =>
      obtain ⟨hpackages, hmem⟩ := visitMap_strict hvalues
      refine ⟨fields, packages, rfl, fun e he => (hknown e he).1, hnodup, htext, hw, hpackages,
        fun package hpackage => ?_⟩
      obtain ⟨-, values, hpackageValues⟩ := hmem package hpackage
      exact deserializeValues_strict hpackageValues
    | _ => cases hvalues
  | _ => cases h

/-! ## Files -/

section
variable {linked : Linked} {path : String} {bytes : List UInt8} {d : SkillConfigDocument}

theorem mapError_eq_ok {α : Type} {f : String → String} {x : ConfigResult α} {a : α} :
    mapError f x = .ok a ↔ x = .ok a := by
  cases x <;> simp [mapError]

theorem readSnapshotFrom_some {s : SkillConfigSnapshot} :
    readSnapshotFrom linked path (some bytes) = .ok s ↔
      bytes.length ≤ skillConfigMaxDocumentBytes ∧
      (∃ v, linked.parse bytes = some v ∧ deserializeDocument v = .ok s.document) ∧
      validateSkillConfigDocument s.document = .ok () ∧
      s.contentDigest = linked.hexSha256 bytes := by
  simp only [readSnapshotFrom, bind_eq_ok, refuseIf_eq_ok, mapError_eq_ok, okOr_eq_ok,
    not_lt]
  constructor
  · rintro ⟨-, hsize, document, hread, ⟨⟩, hvalid, hs⟩
    cases hs
    exact ⟨hsize, hread, hvalid, rfl⟩
  · rintro ⟨hsize, hread, hvalid, hdigest⟩
    refine ⟨(), hsize, s.document, hread, (), hvalid, ?_⟩
    rw [← hdigest]
    rfl

theorem answered_eq_ok : answered label answer = .ok u ↔ answer = none := by
  cases answer <;> simp [answered]

theorem writeDocumentTo_eq_ok : writeDocumentTo linked path io d = .ok bytes ↔
      validateSkillConfigDocument d = .ok () ∧ io.createDir = none ∧ io.tempFile = none ∧
      io.replace = none ∧ (serialized linked d).length ≤ skillConfigMaxDocumentBytes ∧
      bytes = serialized linked d := by
  simp only [writeDocumentTo, bind_eq_ok, refuseIf_eq_ok, answered_eq_ok, not_lt]
  constructor
  · rintro ⟨⟨⟩, hvalid, -, hdir, -, hsize, -, htemp, -, hreplace, h⟩
    exact ⟨hvalid, hdir, htemp, hreplace, hsize, (ok.inj h).symm⟩
  · rintro ⟨hvalid, hdir, htemp, hreplace, hsize, rfl⟩
    exact ⟨(), hvalid, (), hdir, (), hsize, (), htemp, (), hreplace, rfl⟩

/-- The bytes of a write are read back as the document that was written. -/
theorem read_of_write (h : writeDocumentTo linked path io d = .ok bytes) :
    readSnapshotFrom linked path (some bytes) = .ok ⟨linked.hexSha256 bytes, d⟩ := by
  obtain ⟨hvalid, -, -, -, hsize, rfl⟩ := writeDocumentTo_eq_ok.1 h
  refine readSnapshotFrom_some.2 ⟨hsize, ⟨d.toJson, ?_, deserializeDocument_print d⟩, hvalid, rfl⟩
  exact linked.parse_printPretty d.toJson (printable_toJson d)

end

/-- A written document is read back as it was; an accepted file has no repeated or unknown member, a
canonical revision and, at revision zero, no package, and its document is read back after a write that
stays within the size limit. -/
theorem format_roundTrip (linked : Linked) (path : String) :
    (∀ d, validateSkillConfigDocument d = .ok () →
      ((serialized linked d).length ≤ skillConfigMaxDocumentBytes →
        ∃ bytes, writeDocumentTo linked path .quiet d = .ok bytes) ∧
      ∀ io bytes, writeDocumentTo linked path io d = .ok bytes →
        readSnapshotFrom linked path (some bytes) = .ok ⟨linked.hexSha256 bytes, d⟩) ∧
    ∀ bytes s, readSnapshotFrom linked path (some bytes) = .ok s →
      ((serialized linked s.document).length ≤ skillConfigMaxDocumentBytes →
        ∃ bytes', writeDocumentTo linked path .quiet s.document = .ok bytes' ∧
          readSnapshotFrom linked path (some bytes') =
            .ok ⟨linked.hexSha256 bytes', s.document⟩) ∧
      (∃ fields packages, linked.parse bytes = some (.object fields) ∧
        StrictInput fields packages s.document) ∧
      (s.document.revision = 0 → s.document.skills = ∅) := by
  refine ⟨fun d hvalid => ⟨fun hsize => ?_, fun io bytes h => read_of_write h⟩, fun bytes s h => ?_⟩
  · exact ⟨_, writeDocumentTo_eq_ok.2 ⟨hvalid, rfl, rfl, rfl, hsize, rfl⟩⟩
  · obtain ⟨-, ⟨v, hparse, hread⟩, hvalid, -⟩ := readSnapshotFrom_some.1 h
    obtain ⟨fields, packages, rfl, hstrict⟩ := deserializeDocument_strict hread
    refine ⟨fun hsize => ?_, ⟨fields, packages, hparse, hstrict⟩,
      (validateSkillConfigDocument_eq_ok.1 hvalid).2.2.1⟩
    have hwrite : writeDocumentTo linked path .quiet s.document =
        .ok (serialized linked s.document) :=
      writeDocumentTo_eq_ok.2 ⟨hvalid, rfl, rfl, rfl, hsize, rfl⟩
    exact ⟨_, hwrite, read_of_write hwrite⟩

/-! ## Texts of the linked library -/

/-- The library on the listed trees, with the digests of the listed files. -/
noncomputable def Linked.ofTable (table : TextTable Json) (digests : List (List UInt8 × String)) :
    Linked where
  printPretty := table.print
  parse := table.parse
  hexSha256 bytes := ((digests.find? fun e => e.1 = bytes).map Prod.snd).getD ""
  parse_printPretty v _ := table.parse_print v

def asciiBytes (text : String) : List UInt8 := text.toList.map fun c => UInt8.ofNat c.toNat

theorem mode_sorted : [("mode", "fast")].Pairwise fun a b => a.1 < b.1 := by decide

def modeDocument : SkillConfigDocument where
  formatVersion := 1
  revision := 1
  skills := ⟨[("demo", ⟨[("mode", "fast")], mode_sorted⟩)], by decide⟩

def modeText : List UInt8 :=
  asciiBytes ("\x7b\n  \"format_version\": 1,\n  \"revision\": \"1\",\n  \"skills\": \x7b\n" ++
    "    \"demo\": \x7b\n      \"mode\": \"fast\"\n    \x7d\n  \x7d\n\x7d")

def modeTable : TextTable Json where
  printed := [(modeDocument.toJson, modeText)]
  accepted := []
  printed_nodup := nodup_singleton _
  printed_head := by decide
  accepted_head := nofun
  accepted_ne := nofun

noncomputable def modeLinked : Linked := Linked.ofTable modeTable
  [(modeText ++ [0x0a], "54edbdfd593290859129838493c32c1467ee2321c794ea6292e51c8bed85df6e")]

theorem serialized_modeDocument : serialized modeLinked modeDocument = modeText ++ [0x0a] := by
  have hprint : modeTable.print modeDocument.toJson = modeText :=
    modeTable.print_of_mem (nodup_singleton _) mem_cons_self
  exact congrArg (· ++ [0x0a]) hprint

theorem serialized_modeDocument_le :
    (serialized modeLinked modeDocument).length ≤ skillConfigMaxDocumentBytes := by
  rw [serialized_modeDocument]
  decide

theorem write_modeDocument (path : String) :
    writeDocumentTo modeLinked path .quiet modeDocument = .ok (modeText ++ [0x0a]) :=
  writeDocumentTo_eq_ok.2 ⟨by decide +kernel, rfl, rfl, rfl, serialized_modeDocument_le,
    serialized_modeDocument.symm⟩

theorem format_roundTrip_mode :
    readSnapshotFrom modeLinked "/etc/luaskills/skills/config.json" (some (modeText ++ [0x0a])) =
      .ok ⟨"54edbdfd593290859129838493c32c1467ee2321c794ea6292e51c8bed85df6e", modeDocument⟩ ∧
    ∃ bytes, writeDocumentTo modeLinked "/etc/luaskills/skills/config.json" .quiet modeDocument =
        .ok bytes ∧
      readSnapshotFrom modeLinked "/etc/luaskills/skills/config.json" (some bytes) =
        .ok ⟨modeLinked.hexSha256 bytes, modeDocument⟩ := by
  obtain ⟨hdocuments, hfiles⟩ := format_roundTrip modeLinked "/etc/luaskills/skills/config.json"
  have hread := (hdocuments modeDocument (by decide +kernel)).2 .quiet _ (write_modeDocument _)
  have hdigest : modeLinked.hexSha256 (modeText ++ [0x0a]) =
      "54edbdfd593290859129838493c32c1467ee2321c794ea6292e51c8bed85df6e" := by
    simp [modeLinked, Linked.ofTable]
  rw [hdigest] at hread
  exact ⟨hread, (hfiles _ _ hread).1 serialized_modeDocument_le⟩

/-! ## A compact file that cannot be written back

Sixty-four values of 1 048 562 bytes each. Printed without blanks the file is just within the limit;
the indentation the store adds takes it past. -/

def wideKeys : List String :=
  ["0", "1", "2", "3", "4", "5", "6", "7"].flatMap fun a =>
    ["0", "1", "2", "3", "4", "5", "6", "7"].map fun b => "k" ++ a ++ b

@[irreducible] def wideLength : ℕ := 1048562

@[irreducible] def wideValue : String := String.ofList (replicate wideLength 'x')

def wideDocument : SkillConfigDocument where
  formatVersion := 1
  revision := 1
  skills := ⟨[("a", ⟨wideKeys.map fun k => (k, wideValue), by
    rw [pairwise_map]
    exact (by decide +kernel : wideKeys.Pairwise (· < ·))⟩)], pairwise_singleton _ _⟩

/-- The members of the package: `before`, the key, `between`, the value and a quote, with commas. -/
def wideMembers (separator before between : String) : List UInt8 :=
  (wideKeys.flatMap fun k => asciiBytes separator ++ asciiBytes before ++ asciiBytes k ++
    asciiBytes between ++ replicate wideLength 120 ++ [34]).drop separator.length

@[irreducible] def wideCompact : List UInt8 :=
  asciiBytes "\x7b\"format_version\":1,\"revision\":\"1\",\"skills\":\x7b\"a\":\x7b" ++
    wideMembers "," "\"" "\":\"" ++ asciiBytes "\x7d\x7d\x7d"

@[irreducible] def widePretty : List UInt8 :=
  asciiBytes ("\x7b\n  \"format_version\": 1,\n  \"revision\": \"1\",\n  \"skills\": \x7b\n" ++
    "    \"a\": \x7b\n") ++
    wideMembers ",\n" "      \"" "\": \"" ++ asciiBytes "\n    \x7d\n  \x7d\n\x7d"

theorem length_wideMembers (separator before between : String) :
    (wideMembers separator before between).length =
      64 * (separator.length + before.length + between.length + wideLength + 4) -
        separator.length := by
  have hkey : ∀ k ∈ wideKeys, (asciiBytes k).length = 3 := by decide +kernel
  have hsum : (wideKeys.map fun k => (asciiBytes separator ++ asciiBytes before ++ asciiBytes k ++
      asciiBytes between ++ replicate wideLength 120 ++ [34]).length) =
      wideKeys.map fun _ => separator.length + before.length + between.length + wideLength + 4 := by
    refine map_congr_left fun k hk => ?_
    simp only [length_append, length_replicate, length_singleton, hkey k hk]
    simp only [asciiBytes, length_map, String.length_toList]
    omega
  rw [wideMembers, length_drop, length_flatMap, hsum, map_const',
    sum_replicate_nat]
  rfl

theorem length_wideCompact : wideCompact.length = 67108596 := by
  simp only [wideCompact, length_append, length_wideMembers]
  decide +kernel

theorem length_widePretty : widePretty.length = 67109135 := by
  simp only [widePretty, length_append, length_wideMembers]
  decide +kernel

theorem head?_wideCompact : wideCompact.head? = some 0x7b := by
  rw [wideCompact, append_assoc]
  rfl

theorem head?_widePretty : widePretty.head? = some 0x7b := by
  rw [widePretty, append_assoc]
  rfl

def wideTable : TextTable Json where
  printed := [(wideDocument.toJson, widePretty)]
  accepted := [(wideCompact, wideDocument.toJson)]
  printed_nodup := nodup_singleton _
  printed_head e he := by
    obtain rfl := mem_singleton.1 he
    exact head?_widePretty
  accepted_head e he := by
    obtain rfl := mem_singleton.1 he
    exact head?_wideCompact
  accepted_ne e he p hp heq := by
    obtain rfl := mem_singleton.1 he
    obtain rfl := mem_singleton.1 hp
    have hlen : wideCompact.length = (widePretty ++ [0x0a]).length := congrArg length heq
    rw [length_wideCompact, length_append, length_widePretty, length_singleton] at hlen
    omega

noncomputable def wideLinked : Linked := Linked.ofTable wideTable
  [(wideCompact, "7dad06eadce001681b7e75779223850dc9e22d92ca095f180644bdcb89fdb000")]

theorem utf8ByteSize_wideValue : wideValue.utf8ByteSize = wideLength := by
  have hlen : ∀ n, String.utf8Len (replicate n 'x') = n := by
    intro n
    induction n with
    | zero => rfl
    | succ n ih => rw [replicate_succ, String.utf8Len_cons, ih]; rfl
  rw [wideValue, String.utf8ByteSize_ofList, hlen]

theorem wideDocument_valid : validateSkillConfigDocument wideDocument = .ok () := by
  have hkey : ∀ k ∈ wideKeys, validateSkillConfigKey k = .ok k := by decide +kernel
  have hentry : ∀ e ∈ wideKeys.map fun k => (k, wideValue), validateEntry "a" e = .ok () := by
    intro e he
    obtain ⟨k, hk, rfl⟩ := mem_map.1 he
    have hvalue : ¬ skillConfigMaxValueBytes < wideValue.utf8ByteSize := by
      rw [utf8ByteSize_wideValue, skillConfigMaxValueBytes, wideLength]
      omega
    simp only [validateEntry, hkey k hk, ok_bind, refuseIf_of_not hvalue]
  have hpackage : ∀ package ∈ wideDocument.skills.entries, validatePackage package = .ok () := by
    intro package hpackage
    obtain rfl := mem_singleton.1 hpackage
    exact validatePackage_eq_ok.2 ⟨⟨"a", by decide +kernel⟩, rfl, by decide, forM_eq_ok hentry⟩
  exact validateSkillConfigDocument_eq_ok.2
    ⟨rfl, by decide, fun h => absurd h (by decide), forM_eq_ok hpackage⟩

theorem read_wideCompact :
    readSnapshotFrom wideLinked "/etc/luaskills/skills/config.json" (some wideCompact) =
      .ok ⟨wideLinked.hexSha256 wideCompact, wideDocument⟩ := by
  have hparse : wideLinked.parse wideCompact = some wideDocument.toJson :=
    wideTable.parse_of_mem (nodup_singleton _) mem_cons_self
  refine readSnapshotFrom_some.2
    ⟨?_, ⟨_, hparse, deserializeDocument_print wideDocument⟩, wideDocument_valid, rfl⟩
  rw [length_wideCompact, skillConfigMaxDocumentBytes]
  omega

theorem serialized_wideDocument : serialized wideLinked wideDocument = widePretty ++ [0x0a] := by
  have hprint : wideTable.print wideDocument.toJson = widePretty :=
    wideTable.print_of_mem (nodup_singleton _) mem_cons_self
  exact congrArg (· ++ [0x0a]) hprint

theorem compact_file_not_rewritten :
    ¬ ∀ bytes s, readSnapshotFrom wideLinked "/etc/luaskills/skills/config.json" (some bytes) = .ok s →
      ∃ io bytes' s',
        writeDocumentTo wideLinked "/etc/luaskills/skills/config.json" io s.document = .ok bytes' ∧
        readSnapshotFrom wideLinked "/etc/luaskills/skills/config.json" (some bytes') = .ok s' ∧
        s'.document = s.document := by
  intro h
  obtain ⟨io, bytes, s, hwrite, -⟩ := h wideCompact _ read_wideCompact
  obtain ⟨-, -, -, -, hsize, -⟩ := writeDocumentTo_eq_ok.1 hwrite
  rw [serialized_wideDocument, length_append, length_widePretty, skillConfigMaxDocumentBytes,
    length_singleton] at hsize
  omega

end LuaSkills.SkillConfig
