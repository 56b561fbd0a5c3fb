import LuaSkills.Data.Utf16

/-!
# Windows host paths

The Windows build turns verbatim paths into the ordinary drive and UNC spellings, once on texts and once
on the 16-bit units of a native path. A path is given by its characters or by its units.
-/

namespace LuaSkills.HostPath

open List Bool

/-! ## Texts -/

/-- The other separator, whose presence changes what a verbatim path means. -/
def mixedSeparator (text : List Char) (separator : Char) : Bool :=
  match separator with
  | '\\' => text.contains '/'
  | '/' => text.contains '\\'
  | _ => true

/-- The source looks at the first three bytes; they are the first three characters when they are
ASCII. -/
def isAbsoluteWindowsDrivePathText (text : List Char) (separator : Char) : Bool :=
  match text with
  | drive :: colon :: root :: _ =>
    (('A' ≤ drive && drive ≤ 'Z') || ('a' ≤ drive && drive ≤ 'z')) && colon = ':' &&
      root = separator && !mixedSeparator text separator
  | _ => false

/-- `str::strip_suffix` of one character, or the text. -/
def stripOne (text : List Char) (separator : Char) : List Char :=
  if text.getLast? = some separator then text.dropLast else text

def isWindowsUncPathSuffix (text : List Char) (separator : Char) : Bool :=
  if mixedSeparator text separator then false
  else
    let components := (stripOne text separator).splitOn separator
    2 ≤ components.length && components.all (· ≠ [])

/-- Whether a text begins with an ASCII prefix in any case. -/
def startsIgnoringCase (text pre : List Char) : Bool :=
  (text.take pre.length).map Char.toLower = pre.map Char.toLower

def normalizeHostVisiblePathText (rendered : List Char) : List Char :=
  if startsIgnoringCase rendered "\\\\?\\UNC\\".toList &&
      isWindowsUncPathSuffix (rendered.drop 8) '\\' then
    '\\' :: '\\' :: rendered.drop 8
  else if startsIgnoringCase rendered "//?/UNC/".toList &&
      isWindowsUncPathSuffix (rendered.drop 8) '/' then
    '\\' :: '\\' :: (rendered.drop 8).map fun c => if c = '/' then '\\' else c
  else if "\\\\?\\".toList.isPrefixOf rendered &&
      isAbsoluteWindowsDrivePathText (rendered.drop 4) '\\' then
    rendered.drop 4
  else if "//?/".toList.isPrefixOf rendered &&
      isAbsoluteWindowsDrivePathText (rendered.drop 4) '/' then
    rendered.drop 4
  else rendered

def unsupportedNamespace : String := "unsupported Windows verbatim path namespace"

def normalizeHostInputPathText (rendered : List Char) : Except String (List Char) :=
  let normalized := normalizeHostVisiblePathText rendered
  if "\\\\?\\".toList.isPrefixOf normalized || "//?/".toList.isPrefixOf normalized then
    .error unsupportedNamespace
  else .ok normalized

/-! ## Native paths -/

def verbatimPrefix : List UInt16 := [92, 92, 63, 92]

/-- Whether the units after the verbatim prefix begin with `UNC\`. -/
def isUncHeader (remainder : List UInt16) : Bool :=
  match remainder with
  | u :: n :: c :: separator :: _ =>
    (u = 85 || u = 117) && (n = 78 || n = 110) && (c = 67 || c = 99) && separator = 92
  | _ => false

/-- The components between backslashes, without one empty component at the end. -/
def uncComponents (suffix : List UInt16) : List (List UInt16) :=
  let components := suffix.splitOn 92
  if components.getLast? = some [] then components.dropLast else components

def validUnc (suffix : List UInt16) : Bool :=
  let components := uncComponents suffix
  !suffix.contains 47 && 2 ≤ components.length && components.all (· ≠ [])

def driveQualified (remainder : List UInt16) : Bool :=
  match remainder with
  | drive :: colon :: root :: _ =>
    ((65 ≤ drive && drive ≤ 90) || (97 ≤ drive && drive ≤ 122)) && colon = 58 && root = 92 &&
      !remainder.contains 47
  | _ => false

def normalizeWindowsVerbatimPath (encoded : List UInt16) : Except String (List UInt16) :=
  if verbatimPrefix.isPrefixOf encoded = false then .ok encoded
  else if isUncHeader (encoded.drop 4) then
    let suffix := encoded.drop 8
    if validUnc suffix then .ok (92 :: 92 :: suffix) else .error unsupportedNamespace
  else
    let remainder := encoded.drop 4
    if driveQualified remainder then .ok remainder else .error unsupportedNamespace

/-! ## Prefixes in any case -/

theorem startsIgnoringCase_nil (text : List Char) : startsIgnoringCase text [] = true := rfl

theorem startsIgnoringCase_cons (c d : Char) (text pre : List Char) :
    startsIgnoringCase (c :: text) (d :: pre) =
      (decide (c.toLower = d.toLower) && startsIgnoringCase text pre) := by
  simp [startsIgnoringCase]

theorem startsIgnoringCase_empty (d : Char) (pre : List Char) :
    startsIgnoringCase [] (d :: pre) = false := rfl

theorem toNat_toLower (c : Char) :
    c.toLower.toNat = if 65 ≤ c.toNat ∧ c.toNat ≤ 90 then c.toNat + 32 else c.toNat := by
  have hrange : (c.val ≥ 'A'.val ∧ c.val ≤ 'Z'.val) ↔ 65 ≤ c.toNat ∧ c.toNat ≤ 90 := by
    rw [ge_iff_le, UInt32.le_iff_toNat_le, UInt32.le_iff_toNat_le]
    rfl
  by_cases h : 65 ≤ c.toNat ∧ c.toNat ≤ 90
  · have hlower : c.toLower = _ := dif_pos (hrange.2 h)
    rw [if_pos h, hlower]
    have hlt : c.val.toNat + 32 < 2 ^ 32 := by
      have : c.val.toNat ≤ 90 := h.2
      omega
    exact (UInt32.toNat_add ..).trans (Nat.mod_eq_of_lt hlt)
  · have hlower : c.toLower = _ := dif_neg fun h' => h (hrange.1 h')
    rw [if_neg h, hlower]

/-- The two characters that are a small letter in lower case. -/
theorem toLower_eq_iff {c d : Char} (hlow : 97 ≤ d.toNat) (hhigh : d.toNat ≤ 122) :
    c.toLower = d ↔ c.toNat + 32 = d.toNat ∨ c = d := by
  rw [← Char.toNat_inj, ← Char.toNat_inj, toNat_toLower]
  split
  next h => omega
  next h => omega

/-- The separators and the question mark have no other case. -/
theorem toLower_eq_caseless {c d : Char} (h : d.toNat < 65 ∨ 90 < d.toNat ∧ d.toNat < 97) :
    c.toLower = d ↔ c = d := by
  rw [← Char.toNat_inj, ← Char.toNat_inj, toNat_toLower]
  split
  next h => omega
  next h => omega

theorem startsIgnoringCase_unc :
    startsIgnoringCase text "UNC\\".toList = true ↔ ∃ u n c rest, text = u :: n :: c :: '\\' :: rest ∧
      (u.toNat = 85 ∨ u.toNat = 117) ∧ (n.toNat = 78 ∨ n.toNat = 110) ∧
      (c.toNat = 67 ∨ c.toNat = 99) := by
  have hletter : ∀ (lower : Char) {c upper : Char}, upper.toLower = lower → 97 ≤ lower.toNat →
      lower.toNat ≤ 122 → (c.toLower = upper.toLower ↔
        c.toNat = lower.toNat - 32 ∨ c.toNat = lower.toNat) := by
    intro lower c upper hlower hlow hhigh
    rw [hlower, toLower_eq_iff hlow hhigh, ← Char.toNat_inj]
    omega
  have hu : ∀ c : Char, c.toLower = 'U'.toLower ↔ c.toNat = 85 ∨ c.toNat = 117 := fun c =>
    hletter 'u' rfl (by decide) (by decide)
  have hn : ∀ c : Char, c.toLower = 'N'.toLower ↔ c.toNat = 78 ∨ c.toNat = 110 := fun c =>
    hletter 'n' rfl (by decide) (by decide)
  have hc : ∀ c : Char, c.toLower = 'C'.toLower ↔ c.toNat = 67 ∨ c.toNat = 99 := fun c =>
    hletter 'c' rfl (by decide) (by decide)
  have hs : ∀ c : Char, c.toLower = '\\'.toLower ↔ c = '\\' := fun c =>
    toLower_eq_caseless (.inr (by decide))
  rw [show "UNC\\".toList = ['U', 'N', 'C', '\\'] from rfl]
  match text with
  | [] => exact ⟨fun h => (nomatch h), fun ⟨_, _, _, _, h, _⟩ => nomatch h⟩
  | [u] => simp [startsIgnoringCase_cons, startsIgnoringCase_empty]
  | [u, n] => simp [startsIgnoringCase_cons, startsIgnoringCase_empty]
  | [u, n, c] => simp [startsIgnoringCase_cons, startsIgnoringCase_empty]
  | u :: n :: c :: s :: rest =>
    simp only [startsIgnoringCase_cons, startsIgnoringCase_nil, hu, hn, hc, hs, Bool.and_true,
      and_eq_true, decide_eq_true_eq]
    constructor
    · rintro ⟨hu, hn, hc, rfl⟩
      exact ⟨u, n, c, rest, rfl, hu, hn, hc⟩
    · rintro ⟨u', n', c', rest', h, hu, hn, hc⟩
      cases h
      exact ⟨hu, hn, hc, rfl⟩

theorem isAbsoluteWindowsDrivePathText_backslash :
    isAbsoluteWindowsDrivePathText text '\\' = true ↔ ∃ drive rest,
      text = drive :: ':' :: '\\' :: rest ∧
      (65 ≤ drive.toNat ∧ drive.toNat ≤ 90 ∨ 97 ≤ drive.toNat ∧ drive.toNat ≤ 122) ∧
      '/' ∉ text := by
  unfold isAbsoluteWindowsDrivePathText mixedSeparator
  split
  next drive colon root rest =>
    simp only [and_eq_true, or_eq_true, decide_eq_true_eq, not_eq_true',
      contains_eq_mem, decide_eq_false_iff_not]
    constructor
    · rintro ⟨⟨⟨hdrive, rfl⟩, rfl⟩, hmixed⟩
      exact ⟨drive, rest, rfl, hdrive, hmixed⟩
    · rintro ⟨drive', rest', h, hdrive, hmixed⟩
      cases h
      exact ⟨⟨⟨hdrive, rfl⟩, rfl⟩, hmixed⟩
  next hshort =>
    refine ⟨fun h => (nomatch h), ?_⟩
    rintro ⟨drive, rest, rfl, -⟩
    exact (hshort drive ':' '\\' rest rfl).elim

/-! ## The two forms -/

section
open Utf16

/-- The character of an ASCII unit. -/
theorem encode_cons_of_toNat {c : Char} (hn : n < 128) (hc : c.toNat = n) (rest : List Char) :
    encode (c :: rest) = UInt16.ofNat n :: encode rest := by
  rw [encode_cons_ascii (hc ▸ hn), unit, hc]

theorem isUncHeader_encode (rest : List Char) :
    isUncHeader (encode rest) = startsIgnoringCase rest "UNC\\".toList := by
  rw [Bool.eq_iff_iff, startsIgnoringCase_unc]
  constructor
  · intro h
    unfold isUncHeader at h
    split at h
    next u n c s tail hunits =>
      simp only [and_eq_true, or_eq_true, decide_eq_true_eq] at h
      obtain ⟨⟨⟨hu, hn⟩, hc⟩, rfl⟩ := h
      have hu' : u.toNat = 85 ∨ u.toNat = 117 := hu.imp (congrArg UInt16.toNat) (congrArg UInt16.toNat)
      have hn' : n.toNat = 78 ∨ n.toNat = 110 := hn.imp (congrArg UInt16.toNat) (congrArg UInt16.toNat)
      have hc' : c.toNat = 67 ∨ c.toNat = 99 := hc.imp (congrArg UInt16.toNat) (congrArg UInt16.toNat)
      obtain ⟨u₁, rest, rfl, hu₁, hunits⟩ := encode_eq_cons (by omega) hunits
      obtain ⟨n₁, rest, rfl, hn₁, hunits⟩ := encode_eq_cons (by omega) hunits
      obtain ⟨c₁, rest, rfl, hc₁, hunits⟩ := encode_eq_cons (by omega) hunits
      obtain ⟨s₁, rest, rfl, hs₁, -⟩ := encode_eq_cons (by decide) hunits
      have hs : s₁ = '\\' := Char.toNat_inj.1 hs₁
      subst hs
      exact ⟨u₁, n₁, c₁, rest, rfl, hu₁ ▸ hu', hn₁ ▸ hn', hc₁ ▸ hc'⟩
    next => cases h
  · rintro ⟨u, n, c, rest, rfl, hu | hu, hn | hn, hc | hc⟩
    all_goals
      rw [encode_cons_of_toNat (by decide) hu, encode_cons_of_toNat (by decide) hn,
        encode_cons_of_toNat (by decide) hc, encode_cons_ascii (by decide)]
      rfl

theorem driveQualified_encode (rest : List Char) :
    driveQualified (encode rest) = isAbsoluteWindowsDrivePathText rest '\\' := by
  have hslash : (47 : UInt16) ∈ encode rest ↔ '/' ∈ rest := unit_mem_encode (d := '/') (by decide)
  rw [Bool.eq_iff_iff, isAbsoluteWindowsDrivePathText_backslash]
  constructor
  · intro h
    unfold driveQualified at h
    split at h
    next drive colon root tail hunits =>
      simp only [and_eq_true, or_eq_true, decide_eq_true_eq, not_eq_true',
        contains_eq_mem, decide_eq_false_iff_not, UInt16.le_iff_toNat_le] at h
      obtain ⟨⟨⟨hdrive, rfl⟩, rfl⟩, hmixed⟩ := h
      rw [hslash] at hmixed
      have hdrive' : 65 ≤ drive.toNat ∧ drive.toNat ≤ 90 ∨ 97 ≤ drive.toNat ∧ drive.toNat ≤ 122 :=
        hdrive
      obtain ⟨d, rest, rfl, hd, hunits⟩ := encode_eq_cons (by omega) hunits
      obtain ⟨colon, rest, rfl, hcolon, hunits⟩ := encode_eq_cons (by decide) hunits
      obtain ⟨root, rest, rfl, hroot, -⟩ := encode_eq_cons (by decide) hunits
      have hcolon' : colon = ':' := Char.toNat_inj.1 hcolon
      have hroot' : root = '\\' := Char.toNat_inj.1 hroot
      subst hcolon' hroot'
      exact ⟨d, rest, rfl, hd ▸ hdrive', hmixed⟩
    next => cases h
  · rintro ⟨drive, tail, rfl, hdrive, hmixed⟩
    have hascii : drive.toNat < 128 := by omega
    rw [← hslash] at hmixed
    rw [encode_cons_ascii hascii, encode_cons_ascii (by decide), encode_cons_ascii (by decide)]
      at hmixed ⊢
    have hunit := toNat_unit hascii
    simp only [driveQualified, and_eq_true, or_eq_true, decide_eq_true_eq,
      not_eq_true', contains_eq_mem, decide_eq_false_iff_not, UInt16.le_iff_toNat_le]
    refine ⟨⟨⟨?_, rfl⟩, rfl⟩, hmixed⟩
    rw [hunit]
    exact hdrive

theorem uncComponents_encode (hne : suffix ≠ []) :
    uncComponents (encode suffix) = ((stripOne suffix '\\').splitOn '\\').map encode := by
  have hunit : unit '\\' = 92 := rfl
  have hsplit := splitOn_encode (d := '\\') (by decide) suffix
  rw [hunit] at hsplit
  rcases eq_nil_or_concat suffix with h | ⟨init, last, rfl⟩
  · exact absurd h hne
  rw [concat_eq_append] at hsplit ⊢
  rw [uncComponents, hsplit, stripOne, getLast?_concat, dropLast_concat]
  by_cases hlast : last = '\\'
  · subst hlast
    rw [splitOn_append_cons_self, splitOn_nil, map_append, if_pos rfl,
      map_singleton, encode_nil, getLast?_concat, if_pos rfl, dropLast_concat]
  · obtain ⟨part, hpart⟩ := getLast?_splitOn hlast init
    have hnone : (((init ++ [last]).splitOn '\\').map encode).getLast? ≠ some [] := by
      rw [getLast?_map, hpart]
      intro h
      have hempty : encode (part ++ [last]) = [] := Option.some.inj h
      exact absurd (encode_eq_nil.1 hempty) (by simp)
    rw [if_neg hnone, if_neg (by simpa using hlast)]

theorem validUnc_encode (suffix : List Char) :
    validUnc (encode suffix) = isWindowsUncPathSuffix suffix '\\' := by
  have hslash : (47 : UInt16) ∈ encode suffix ↔ '/' ∈ suffix :=
    unit_mem_encode (d := '/') (by decide)
  by_cases hne : suffix = []
  · subst hne
    rfl
  have hnonempty : ∀ parts : List (List Char),
      (parts.map encode).all (fun part => part ≠ []) = parts.all fun part => part ≠ [] := by
    intro parts
    rw [all_map]
    refine congrArg parts.all (funext fun part => ?_)
    simp [encode_eq_nil]
  unfold validUnc isWindowsUncPathSuffix mixedSeparator
  rw [uncComponents_encode hne]
  dsimp only
  rw [length_map, hnonempty]
  by_cases hmixed : '/' ∈ suffix
  · simp [hslash.2 hmixed, hmixed]
  · simp [mt hslash.1 hmixed, hmixed]

end

end LuaSkills.HostPath
