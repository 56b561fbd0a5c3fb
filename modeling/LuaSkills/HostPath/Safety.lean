import LuaSkills.HostPath.Windows

/-!
# When the normalization of a Windows path is safe

A path that is spelled like a verbatim or device path in any other way than `\\?\` passes one of the two
forms unchanged, and a UNC server named `?` or `.` makes such a spelling again. On all other paths the
normalization is idempotent, what it accepts is an ordinary path, and the two forms agree.
-/

namespace LuaSkills.HostPath

open List Utf16

variable {text : List Char}

def isSeparator (c : Char) : Bool := c = '\\' || c = '/'

/-- A verbatim or device path, in any spelling of the separators. -/
def deviceSpelled (text : List Char) : Bool :=
  match text with
  | a :: b :: mark :: d :: _ =>
    isSeparator a && isSeparator b && (mark = '?' || mark = '.') && isSeparator d
  | _ => false

/-- A verbatim or device path; the native form knows one separator. -/
def deviceUnits (units : List UInt16) : Bool :=
  match units with
  | a :: b :: mark :: d :: _ => a = 92 && b = 92 && (mark = 63 || mark = 46) && d = 92
  | _ => false

/-- The two spellings of a verbatim path that the text form looks for. -/
def verbatimSpelled (text : List Char) : Bool :=
  "\\\\?\\".toList.isPrefixOf text || "//?/".toList.isPrefixOf text

/-- What is asked of the normalization of one path. -/
structure HostPathSafe (text : List Char) : Prop where
  idempotent : normalizeHostVisiblePathText (normalizeHostVisiblePathText text) =
    normalizeHostVisiblePathText text
  input : ∀ result, normalizeHostInputPathText text = .ok result → deviceSpelled result = false
  native : ∀ result, normalizeWindowsVerbatimPath (encode text) = .ok result →
    deviceUnits result = false
  agree : verbatimSpelled text = true → ∀ result,
    normalizeWindowsVerbatimPath (encode text) = .ok result ↔
      ∃ path, normalizeHostInputPathText text = .ok path ∧ result = encode path

/-- A UNC path after the verbatim prefix. -/
def uncText (rest : List Char) : Bool :=
  startsIgnoringCase rest "UNC\\".toList && isWindowsUncPathSuffix (rest.drop 4) '\\'

/-- Not spelled like a verbatim or device path, or spelled `\\?\` and not a UNC path of a server named
`?` or `.`. -/
def Admitted (text : List Char) : Prop :=
  deviceSpelled text = false ∨ ∃ rest, text = '\\' :: '\\' :: '?' :: '\\' :: rest ∧
    (uncText rest = true →
      "?\\".toList.isPrefixOf (rest.drop 4) = false ∧ ".\\".toList.isPrefixOf (rest.drop 4) = false)

/-! ## Paths that are not verbatim -/

theorem prefix_of_startsIgnoringCase {s : Char} (hs : s.toNat < 65 ∨ 90 < s.toNat ∧ s.toNat < 97)
    {tail : List Char} (h : startsIgnoringCase text (s :: s :: '?' :: s :: tail) = true) :
    [s, s, '?', s].isPrefixOf text = true := by
  match text with
  | [] => cases h
  | [a] => simp [startsIgnoringCase_cons, startsIgnoringCase_empty] at h
  | [a, b] => simp [startsIgnoringCase_cons, startsIgnoringCase_empty] at h
  | [a, b, c] => simp [startsIgnoringCase_cons, startsIgnoringCase_empty] at h
  | a :: b :: c :: d :: rest =>
    have hlower : ∀ {x y : Char}, (y.toNat < 65 ∨ 90 < y.toNat ∧ y.toNat < 97) →
        (x.toLower = y.toLower ↔ x = y) := by
      intro x y hy
      rw [(toLower_eq_caseless hy).2 rfl]
      exact toLower_eq_caseless hy
    simp only [startsIgnoringCase_cons, Bool.and_eq_true, decide_eq_true_eq, hlower hs,
      hlower (y := '?') (.inl (by decide))] at h
    obtain ⟨rfl, rfl, rfl, rfl, -⟩ := h
    simp [isPrefixOf]

theorem visible_of_not_verbatim (h : verbatimSpelled text = false) :
    normalizeHostVisiblePathText text = text := by
  rw [verbatimSpelled, Bool.or_eq_false_iff] at h
  have hback : startsIgnoringCase text "\\\\?\\UNC\\".toList = false := by
    rw [Bool.eq_false_iff]
    intro hstarts
    have := prefix_of_startsIgnoringCase (s := '\\') (.inr (by decide)) hstarts
    rw [show "\\\\?\\".toList = ['\\', '\\', '?', '\\'] from rfl, this] at h
    cases h.1
  have hslash : startsIgnoringCase text "//?/UNC/".toList = false := by
    rw [Bool.eq_false_iff]
    intro hstarts
    have := prefix_of_startsIgnoringCase (s := '/') (.inl (by decide)) hstarts
    rw [show "//?/".toList = ['/', '/', '?', '/'] from rfl, this] at h
    cases h.2
  rw [normalizeHostVisiblePathText, hback, hslash, h.1, h.2]
  simp only [Bool.false_and, Bool.false_eq_true, if_false]

theorem input_of_not_verbatim (h : verbatimSpelled text = false) :
    normalizeHostInputPathText text = .ok text := by
  rw [normalizeHostInputPathText, visible_of_not_verbatim h]
  exact if_neg (by rw [← verbatimSpelled, h]; exact Bool.false_ne_true)

theorem deviceSpelled_of_verbatim (h : verbatimSpelled text = true) :
    deviceSpelled text = true := by
  rw [verbatimSpelled, Bool.or_eq_true] at h
  rcases h with h | h
  · obtain ⟨rest, rfl⟩ := isPrefixOf_iff_prefix.1 h
    rfl
  · obtain ⟨rest, rfl⟩ := isPrefixOf_iff_prefix.1 h
    rfl

/-! ## Verbatim paths -/

theorem visible_verbatim (rest : List Char) :
    normalizeHostVisiblePathText ('\\' :: '\\' :: '?' :: '\\' :: rest) =
      if uncText rest then '\\' :: '\\' :: rest.drop 4
      else if isAbsoluteWindowsDrivePathText rest '\\' then rest
      else '\\' :: '\\' :: '?' :: '\\' :: rest := by
  have hunc : startsIgnoringCase ('\\' :: '\\' :: '?' :: '\\' :: rest) "\\\\?\\UNC\\".toList =
      startsIgnoringCase rest "UNC\\".toList := by
    rw [show "\\\\?\\UNC\\".toList = '\\' :: '\\' :: '?' :: '\\' :: "UNC\\".toList from rfl]
    simp only [startsIgnoringCase_cons, decide_true, Bool.true_and]
  have hslash : startsIgnoringCase ('\\' :: '\\' :: '?' :: '\\' :: rest) "//?/UNC/".toList =
      false := by
    rw [show "//?/UNC/".toList = '/' :: "/?/UNC/".toList from rfl, startsIgnoringCase_cons,
      decide_eq_false (by decide), Bool.false_and]
  have hother : "//?/".toList.isPrefixOf ('\\' :: '\\' :: '?' :: '\\' :: rest) = false := rfl
  have hverbatim : "\\\\?\\".toList.isPrefixOf ('\\' :: '\\' :: '?' :: '\\' :: rest) = true := rfl
  rw [normalizeHostVisiblePathText, hunc, hslash, hother, hverbatim, uncText]
  simp only [Bool.false_and, Bool.true_and, Bool.false_eq_true, if_false, drop_succ_cons,
    drop_zero]

theorem not_drive_of_unc (h : startsIgnoringCase rest "UNC\\".toList = true) :
    isAbsoluteWindowsDrivePathText rest '\\' = false := by
  obtain ⟨u, n, c, suffix, rfl, -, hn, -⟩ := startsIgnoringCase_unc.1 h
  rw [Bool.eq_false_iff, ne_eq, isAbsoluteWindowsDrivePathText_backslash]
  rintro ⟨drive, tail, heq, -⟩
  have hcolon : n = ':' := (cons.inj (cons.inj heq).2).1
  subst hcolon
  revert hn
  decide

theorem native_verbatim (rest : List Char) :
    normalizeWindowsVerbatimPath (encode ('\\' :: '\\' :: '?' :: '\\' :: rest)) =
      if uncText rest then .ok (encode ('\\' :: '\\' :: rest.drop 4))
      else if isAbsoluteWindowsDrivePathText rest '\\' then .ok (encode rest)
      else .error unsupportedNamespace := by
  have hencode : encode ('\\' :: '\\' :: '?' :: '\\' :: rest) =
      92 :: 92 :: 63 :: 92 :: encode rest := by
    rw [encode_cons_ascii (by decide), encode_cons_ascii (by decide),
      encode_cons_ascii (by decide), encode_cons_ascii (by decide)]
    rfl
  have hprefix : verbatimPrefix.isPrefixOf (92 :: 92 :: 63 :: 92 :: encode rest) = true := rfl
  rw [hencode, normalizeWindowsVerbatimPath, hprefix, if_neg (by decide)]
  simp only [drop_succ_cons, drop_zero, isUncHeader_encode, driveQualified_encode, uncText]
  by_cases hheader : startsIgnoringCase rest "UNC\\".toList = true
  · obtain ⟨u, n, c, suffix, rfl, hu, hn, hc⟩ := startsIgnoringCase_unc.1 hheader
    have hdrop : (encode (u :: n :: c :: '\\' :: suffix)).drop 4 = encode suffix := by
      rw [encode_cons_ascii (by omega), encode_cons_ascii (by omega),
        encode_cons_ascii (by omega), encode_cons_ascii (by decide)]
      rfl
    have hordinary : encode ('\\' :: '\\' :: suffix) = 92 :: 92 :: encode suffix := by
      rw [encode_cons_ascii (by decide), encode_cons_ascii (by decide)]
      rfl
    rw [hdrop, validUnc_encode, not_drive_of_unc hheader]
    simp only [hheader, if_true, Bool.true_and, drop_succ_cons, drop_zero, hordinary,
      Bool.false_eq_true, if_false]
  · simp only [hheader, if_false, Bool.false_and, Bool.false_eq_true]

theorem native_of_not_begins (h : "\\\\?\\".toList.isPrefixOf text = false) :
    normalizeWindowsVerbatimPath (encode text) = .ok (encode text) := by
  refine if_pos ?_
  rw [Bool.eq_false_iff]
  intro hprefix
  obtain ⟨tail, htail⟩ := isPrefixOf_iff_prefix.1 hprefix
  obtain ⟨a, rest, rfl, ha, h₁⟩ := encode_eq_cons (by decide) htail.symm
  obtain ⟨b, rest, rfl, hb, h₂⟩ := encode_eq_cons (by decide) h₁
  obtain ⟨c, rest, rfl, hc, h₃⟩ := encode_eq_cons (by decide) h₂
  obtain ⟨d, rest, rfl, hd, -⟩ := encode_eq_cons (by decide) h₃
  have ha' : a = '\\' := Char.toNat_inj.1 ha
  have hb' : b = '\\' := Char.toNat_inj.1 hb
  have hc' : c = '?' := Char.toNat_inj.1 hc
  have hd' : d = '\\' := Char.toNat_inj.1 hd
  subst ha' hb' hc' hd'
  exact Bool.false_ne_true (h.symm.trans rfl)

/-- A device path of the native form is one of the text form. -/
theorem deviceSpelled_of_units (h : deviceUnits (encode text) = true) :
    deviceSpelled text = true := by
  unfold deviceUnits at h
  split at h
  next a b mark d tail hunits =>
    simp only [Bool.and_eq_true, Bool.or_eq_true, decide_eq_true_eq] at h
    obtain ⟨⟨⟨rfl, rfl⟩, hmark⟩, rfl⟩ := h
    have hmark' : mark.toNat = 63 ∨ mark.toNat = 46 :=
      hmark.imp (congrArg UInt16.toNat) (congrArg UInt16.toNat)
    obtain ⟨a, rest, rfl, ha, hunits⟩ := encode_eq_cons (by decide) hunits
    obtain ⟨b, rest, rfl, hb, hunits⟩ := encode_eq_cons (by decide) hunits
    obtain ⟨m, rest, rfl, hm, hunits⟩ := encode_eq_cons (by omega) hunits
    obtain ⟨d, rest, rfl, hd, -⟩ := encode_eq_cons (by decide) hunits
    have ha' : a = '\\' := Char.toNat_inj.1 ha
    have hb' : b = '\\' := Char.toNat_inj.1 hb
    have hd' : d = '\\' := Char.toNat_inj.1 hd
    have hm' : m = '?' ∨ m = '.' := by
      rw [← Char.toNat_inj, ← Char.toNat_inj, hm]
      exact hmark'
    subst ha' hb' hd'
    simp [deviceSpelled, isSeparator, hm']
  next => cases h

/-! ## The condition -/

/-- Both forms answer with the same ordinary path. -/
theorem safe_of_output (hvisible : normalizeHostVisiblePathText text = path)
    (hnative : normalizeWindowsVerbatimPath (encode text) = .ok (encode path))
    (hdevice : deviceSpelled path = false) : HostPathSafe text := by
  have hverbatim : verbatimSpelled path = false := by
    rw [Bool.eq_false_iff]
    exact fun hv => Bool.false_ne_true (hdevice.symm.trans (deviceSpelled_of_verbatim hv))
  have hinput : normalizeHostInputPathText text = .ok path := by
    rw [normalizeHostInputPathText, hvisible]
    exact if_neg (by rw [← verbatimSpelled, hverbatim]; exact Bool.false_ne_true)
  constructor
  case idempotent => rw [hvisible, visible_of_not_verbatim hverbatim]
  case input =>
    intro result hresult
    cases hinput.symm.trans hresult
    exact hdevice
  case native =>
    intro result hresult
    cases hnative.symm.trans hresult
    rw [Bool.eq_false_iff]
    exact fun h => Bool.false_ne_true (hdevice.symm.trans (deviceSpelled_of_units h))
  case agree =>
    intro _ result
    rw [hnative, hinput]
    constructor
    · intro h
      exact ⟨path, rfl, (Except.ok.inj h).symm⟩
    · rintro ⟨path', h, rfl⟩
      cases h
      rfl

theorem safe_of_rejected (hverbatim : verbatimSpelled text = true)
    (hvisible : normalizeHostVisiblePathText text = text)
    (hnative : normalizeWindowsVerbatimPath (encode text) = .error unsupportedNamespace) :
    HostPathSafe text := by
  have hinput : normalizeHostInputPathText text = .error unsupportedNamespace := by
    rw [normalizeHostInputPathText, hvisible]
    exact if_pos hverbatim
  constructor
  case idempotent => rw [hvisible, hvisible]
  case input => exact fun result h => nomatch hinput.symm.trans h
  case native => exact fun result h => nomatch hnative.symm.trans h
  case agree =>
    intro _ result
    rw [hnative, hinput]
    exact ⟨fun h => (nomatch h), fun ⟨_, h, _⟩ => nomatch h⟩

/-- The ordinary spelling of a UNC path is no device path, except for the two servers. -/
theorem deviceSpelled_unc (hvalid : isWindowsUncPathSuffix suffix '\\' = true) :
    deviceSpelled ('\\' :: '\\' :: suffix) =
      ("?\\".toList.isPrefixOf suffix || ".\\".toList.isPrefixOf suffix) := by
  have hslash : '/' ∉ suffix := by
    intro hmem
    simp [isWindowsUncPathSuffix, mixedSeparator, hmem] at hvalid
  match suffix with
  | [] => rfl
  | [mark] => simp [deviceSpelled, isPrefixOf]
  | mark :: d :: tail =>
    have hd : d ≠ '/' := fun h => hslash (h ▸ mem_cons_of_mem _ mem_cons_self)
    have hseparator : isSeparator d = decide (d = '\\') := by
      rw [isSeparator, decide_eq_false hd, Bool.or_false]
    rw [Bool.eq_iff_iff]
    simp only [deviceSpelled, hseparator, Bool.and_eq_true, Bool.or_eq_true, decide_eq_true_eq,
      isPrefixOf_iff_prefix]
    constructor
    · rintro ⟨⟨-, rfl | rfl⟩, rfl⟩
      · exact .inl ⟨tail, rfl⟩
      · exact .inr ⟨tail, rfl⟩
    · rintro (⟨rest, h⟩ | ⟨rest, h⟩)
      · cases h
        exact ⟨⟨⟨rfl, rfl⟩, .inl rfl⟩, rfl⟩
      · cases h
        exact ⟨⟨⟨rfl, rfl⟩, .inr rfl⟩, rfl⟩

theorem deviceSpelled_drive
    (h : isAbsoluteWindowsDrivePathText text '\\' = true) : deviceSpelled text = false := by
  obtain ⟨drive, rest, rfl, -⟩ := isAbsoluteWindowsDrivePathText_backslash.1 h
  have hcolon : isSeparator ':' = false := by decide
  cases rest with
  | nil => rfl
  | cons c rest => simp only [deviceSpelled, hcolon, Bool.and_false, Bool.false_and]

theorem safe_of_admitted (h : Admitted text) : HostPathSafe text := by
  rcases h with hdevice | ⟨rest, rfl, hserver⟩
  · -- an ordinary path is left as it is by both forms
    have hverbatim : verbatimSpelled text = false := by
      rw [Bool.eq_false_iff]
      exact fun hv => Bool.false_ne_true (hdevice.symm.trans (deviceSpelled_of_verbatim hv))
    exact safe_of_output (visible_of_not_verbatim hverbatim)
      (native_of_not_begins (Bool.or_eq_false_iff.1 hverbatim).1) hdevice
  have hvisible := visible_verbatim rest
  have hnative := native_verbatim rest
  by_cases hunc : uncText rest = true
  · rw [if_pos hunc] at hvisible hnative
    refine safe_of_output hvisible hnative ?_
    rw [deviceSpelled_unc ((Bool.and_eq_true ..).mp hunc).2, (hserver hunc).1, (hserver hunc).2]
    rfl
  rw [if_neg hunc] at hvisible hnative
  by_cases hdrive : isAbsoluteWindowsDrivePathText rest '\\' = true
  · rw [if_pos hdrive] at hvisible hnative
    exact safe_of_output hvisible hnative (deviceSpelled_drive hdrive)
  · rw [if_neg hdrive] at hvisible hnative
    exact safe_of_rejected rfl hvisible hnative

/-- A path with slashes is left as it is or becomes one that begins otherwise. -/
theorem visible_slash (rest : List Char) :
    normalizeHostVisiblePathText ('/' :: '/' :: '?' :: '/' :: rest) =
        '/' :: '/' :: '?' :: '/' :: rest ∨
      ∃ c tail, normalizeHostVisiblePathText ('/' :: '/' :: '?' :: '/' :: rest) = c :: tail ∧
        c ≠ '/' := by
  have hback : startsIgnoringCase ('/' :: '/' :: '?' :: '/' :: rest) "\\\\?\\UNC\\".toList =
      false := by
    rw [show "\\\\?\\UNC\\".toList = '\\' :: "\\?\\UNC\\".toList from rfl,
      startsIgnoringCase_cons, decide_eq_false (by decide), Bool.false_and]
  have hprefix : "\\\\?\\".toList.isPrefixOf ('/' :: '/' :: '?' :: '/' :: rest) = false := rfl
  rw [normalizeHostVisiblePathText, hback, hprefix]
  simp only [Bool.false_and, Bool.false_eq_true, if_false]
  split
  · exact .inr ⟨'\\', _, rfl, by decide⟩
  split
  next hdrive =>
    right
    rw [Bool.and_eq_true, drop_succ_cons, drop_succ_cons, drop_succ_cons,
      drop_succ_cons, drop_zero] at hdrive
    match rest, hdrive.2 with
    | drive :: colon :: root :: tail, hdrive =>
      refine ⟨drive, colon :: root :: tail, rfl, ?_⟩
      rintro rfl
      simp [isAbsoluteWindowsDrivePathText] at hdrive
  next => exact .inl rfl

theorem admitted_of_safe (S : HostPathSafe text) : Admitted text := by
  by_contra hnot
  rw [Admitted, not_or, Bool.not_eq_false] at hnot
  obtain ⟨hdevice, hnot⟩ := hnot
  by_cases hverbatim : verbatimSpelled text = true
  · rcases (Bool.or_eq_true ..).mp hverbatim with hback | hslash
    · -- a server named like the mark of a device path
      obtain ⟨rest, rfl⟩ := isPrefixOf_iff_prefix.1 hback
      refine hnot ⟨rest, rfl, fun hunc => ?_⟩
      have hnative := native_verbatim rest
      rw [if_pos hunc] at hnative
      have hordinary := S.native _ hnative
      constructor
      · rw [Bool.eq_false_iff]
        intro hmark
        obtain ⟨tail, htail⟩ := isPrefixOf_iff_prefix.1 hmark
        rw [← htail] at hordinary
        have hunits : encode ('\\' :: '\\' :: ("?\\".toList ++ tail)) =
            92 :: 92 :: 63 :: 92 :: encode tail := rfl
        rw [hunits] at hordinary
        cases hordinary
      · rw [Bool.eq_false_iff]
        intro hmark
        obtain ⟨tail, htail⟩ := isPrefixOf_iff_prefix.1 hmark
        rw [← htail] at hordinary
        have hunits : encode ('\\' :: '\\' :: (".\\".toList ++ tail)) =
            92 :: 92 :: 46 :: 92 :: encode tail := rfl
        rw [hunits] at hordinary
        cases hordinary
    · -- the native form leaves it, the text form does not
      obtain ⟨rest, rfl⟩ := isPrefixOf_iff_prefix.1 hslash
      have hnative : normalizeWindowsVerbatimPath (encode ("//?/".toList ++ rest)) =
          .ok (encode ("//?/".toList ++ rest)) := native_of_not_begins rfl
      obtain ⟨path, hinput, heq⟩ := (S.agree hverbatim _).1 hnative
      rcases visible_slash rest with hsame | ⟨c, tail, hother, hc⟩
      · have hrejected : normalizeHostInputPathText ("//?/".toList ++ rest) =
            .error unsupportedNamespace := by
          refine (congrArg (fun normalized : List Char =>
            if "\\\\?\\".toList.isPrefixOf normalized || "//?/".toList.isPrefixOf normalized then
              Except.error unsupportedNamespace else .ok normalized) hsame).trans ?_
          exact if_pos hverbatim
        cases hrejected.symm.trans hinput
      · have hpath : path = c :: tail := by
          unfold normalizeHostInputPathText at hinput
          dsimp only at hinput
          split at hinput
          · cases hinput
          · exact (Except.ok.inj hinput).symm.trans hother
        subst hpath
        -- the units of the two paths begin differently
        have hunits : encode (c :: tail) = 47 :: encode ('/' :: '?' :: '/' :: rest) :=
          heq.symm
        obtain ⟨d, tail', hcons, hd, -⟩ := encode_eq_cons (by decide) hunits
        have hd' : d = '/' := Char.toNat_inj.1 hd
        exact hc ((cons.inj hcons).1.trans hd')
  · have hinput := input_of_not_verbatim (Bool.not_eq_true _ ▸ hverbatim)
    exact Bool.false_ne_true ((S.input text hinput).symm.trans hdevice)

/-- A path is normalized safely exactly when it is not spelled like a verbatim or device path, or is
spelled `\\?\` and is not the UNC path of a server named `?` or `.`. -/
theorem hostPathSafe_iff (text : List Char) : HostPathSafe text ↔ Admitted text :=
  ⟨admitted_of_safe, safe_of_admitted⟩

/-- The server is named `?`: the first normalization leaves a verbatim path. -/
theorem not_hostPathSafe_nested : ¬ HostPathSafe "\\\\?\\UNC\\?\\UNC\\server\\share".toList := by
  intro S
  have hfirst : normalizeHostVisiblePathText "\\\\?\\UNC\\?\\UNC\\server\\share".toList =
      "\\\\?\\UNC\\server\\share".toList := by decide +kernel
  have hsecond : normalizeHostVisiblePathText "\\\\?\\UNC\\server\\share".toList =
      "\\\\server\\share".toList := by decide +kernel
  have hidempotent := S.idempotent
  rw [hfirst, hsecond] at hidempotent
  exact absurd hidempotent (by decide)

end LuaSkills.HostPath
