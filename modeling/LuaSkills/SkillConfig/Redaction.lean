import LuaSkills.Data.Masking
import LuaSkills.SkillConfig.Validator

/-!
# Redaction of sensitive values

The messages of a validator are redacted by one replacement for each sensitive value, in the order of
the declarations. Where the occurrences of the values overlap, or a value matches at a marker that an
earlier replacement has inserted, something of a value can be left and the order matters.
-/

namespace LuaSkills.SkillConfig

open List Except

section
variable (floats : Floats) (stored : SortedMap String String)

/-- The values that are replaced, in the order of the declarations. -/
def sensitiveValues : List SkillPackageConfigDeclaration → ConfigResult (List String)
  | [] => .ok []
  | declaration :: declarations => do
    let value ← effectiveValue floats stored declaration
    let values ← sensitiveValues declarations
    return (value.filter (· ≠ "")).toList ++ values

/-- The nonempty sensitive effective values of a package. -/
def SkillPackageConfigRegistryEntry.secrets (package : SkillPackageConfigRegistryEntry) :
    ConfigResult (List String) :=
  sensitiveValues floats stored (package.declarations.filter (·.sensitive))

def redactedTrace (secrets : List String) (message : String) : Masking.Traced Char :=
  Masking.replaceAll redactedMarker.toList (secrets.map String.toList)
    (Masking.original message.toList)

/-- What is asked of the redaction: the message is the text of the trace, no position within an
occurrence of a sensitive value is left in it, and the order of the declarations does not matter. -/
def FullyRedacted (package : SkillPackageConfigRegistryEntry) (message : String) : Prop :=
  ∀ secrets, package.secrets floats stored = .ok secrets →
    redactSensitiveValidatorValues floats stored package message =
      .ok (String.ofList (Masking.plain (redactedTrace secrets message))) ∧
    (∀ secret ∈ secrets, ∀ i p, secret.toList <+: message.toList.drop i → i ≤ p →
      p < i + secret.length → ∀ e ∈ redactedTrace secrets message, e.2 ≠ some p) ∧
    ∀ package' : SkillPackageConfigRegistryEntry,
      package'.declarations.Perm package.declarations →
      redactSensitiveValidatorValues floats stored package' message =
        redactSensitiveValidatorValues floats stored package message

end

section
variable {floats : Floats} {stored : SortedMap String String}

/-! ## The values -/

/-- Declarations in another order have the same values in another order. -/
theorem sensitiveValues_perm {ds' : List SkillPackageConfigDeclaration}
    (h : sensitiveValues floats stored ds = .ok values) (hperm : ds'.Perm ds) :
    ∃ values', sensitiveValues floats stored ds' = .ok values' ∧ values'.Perm values := by
  induction hperm generalizing values with
  | nil => exact ⟨values, h, .refl _⟩
  | cons d _ ih =>
    simp only [sensitiveValues, bind_eq_ok] at h
    obtain ⟨value, hvalue, rest, hrest, h⟩ := h
    cases h
    obtain ⟨rest', hrest', hperm⟩ := ih hrest
    refine ⟨_, ?_, hperm.append_left (value.filter (· ≠ "")).toList⟩
    rw [sensitiveValues, hvalue, ok_bind, hrest']
    rfl
  | swap d d' ds =>
    simp only [sensitiveValues, bind_eq_ok] at h
    obtain ⟨value, hvalue, rest, ⟨value', hvalue', rest', hrest', hr⟩, h⟩ := h
    cases hr
    cases h
    refine ⟨(value'.filter (· ≠ "")).toList ++ ((value.filter (· ≠ "")).toList ++ rest'), ?_, ?_⟩
    · simp only [sensitiveValues, hvalue, hvalue', hrest', ok_bind]
      rfl
    · rw [← append_assoc, ← append_assoc]
      exact perm_append_comm.append_right rest'
  | trans _ _ ih₁ ih₂ =>
    obtain ⟨values', h', hperm'⟩ := ih₂ h
    obtain ⟨values'', h'', hperm''⟩ := ih₁ h'
    exact ⟨values'', h'', hperm''.trans hperm'⟩

theorem redactValues_eq (h : sensitiveValues floats stored ds = .ok values) (text : Masking.Traced Char) :
    redactValues floats stored ds (String.ofList (Masking.plain text)) =
      .ok (String.ofList (Masking.plain
        (Masking.replaceAll redactedMarker.toList (values.map String.toList) text))) := by
  induction ds generalizing values text with
  | nil =>
    cases h
    rfl
  | cons d ds ih =>
    simp only [sensitiveValues, bind_eq_ok] at h
    obtain ⟨value, hvalue, rest, hrest, h⟩ := h
    cases h
    rw [redactValues, hvalue, ok_bind]
    cases hfilter : value.filter (· ≠ "") with
    | none => exact ih hrest text
    | some v =>
      have hreplace : Text.replace (String.ofList (Masking.plain text)) v redactedMarker =
          String.ofList (Masking.plain
            (Masking.replaceFrom v.toList redactedMarker.toList 0 text)) := by
        rw [Masking.plain_replaceFrom, Text.replace, String.toList_ofList]
      dsimp only
      rw [hreplace, ih hrest]
      rfl

theorem redact_eq {package : SkillPackageConfigRegistryEntry}
    (h : package.secrets floats stored = .ok secrets) :
    redactSensitiveValidatorValues floats stored package message =
      .ok (String.ofList (Masking.plain (redactedTrace secrets message))) := by
  have heq := redactValues_eq h (Masking.original message.toList)
  rwa [Masking.plain_original, String.ofList_toList] at heq

end

/-- Sensitive values whose occurrences in the message lie apart and which never match at a marker are
redacted fully, in any order. -/
theorem fullyRedacted_of_separate (floats : Floats) (stored : SortedMap String String)
    (package : SkillPackageConfigRegistryEntry) (message : String)
    (hseparate : ∀ secrets, package.secrets floats stored = .ok secrets →
      Masking.Separate redactedMarker.toList (secrets.map String.toList) message.toList) :
    FullyRedacted floats stored package message := by
  intro secrets hsecrets
  have h := hseparate secrets hsecrets
  have hmarker : redactedMarker.toList ≠ [] := by decide
  refine ⟨redact_eq hsecrets, ?_, ?_⟩
  · intro secret hsecret i p hi hip hp e he
    rw [redactedTrace, h.replaceAll hmarker (Perm.refl _)] at he
    exact h.not_kept (mem_map_of_mem hsecret) hi hip (by rwa [String.length_toList]) he
  · intro package' hperm
    obtain ⟨secrets', hsecrets', hperm'⟩ := sensitiveValues_perm hsecrets
      (hperm.filter (·.sensitive))
    rw [redact_eq hsecrets, redact_eq hsecrets', redactedTrace, redactedTrace,
      h.replaceAll hmarker (hperm'.map String.toList), h.replaceAll hmarker (Perm.refl _)]

def sensitiveDeclaration (key : String) : SkillPackageConfigDeclaration where
  key := key
  valueType := .string
  required := false
  default := none
  sensitive := true
  description := key
  constraints := .default
  options := []

def sensitivePair : SkillPackageConfigRegistryEntry where
  rootName := "USER"
  configValidatorPath := some "validate.lua"
  declarations := [sensitiveDeclaration "user", sensitiveDeclaration "token"]
  keys_nodup := by decide
  keys_valid := by decide +kernel

set_option synthInstance.maxSize 400 in
/-- Two values and the message `ab=cd?ab`. -/
theorem fullyRedacted_ab_cd :
    (∀ secrets, sensitivePair.secrets zeroFloats
        ⟨[("token", "cd"), ("user", "ab")], by decide⟩ = .ok secrets →
      Masking.Separate redactedMarker.toList (secrets.map String.toList) "ab=cd?ab".toList) ∧
    FullyRedacted zeroFloats ⟨[("token", "cd"), ("user", "ab")], by decide⟩ sensitivePair
      "ab=cd?ab" := by
  have hsecrets : sensitivePair.secrets zeroFloats
      ⟨[("token", "cd"), ("user", "ab")], by decide⟩ = .ok ["ab", "cd"] := by decide +kernel
  have hseparate : ∀ secrets, sensitivePair.secrets zeroFloats
      ⟨[("token", "cd"), ("user", "ab")], by decide⟩ = .ok secrets →
      Masking.Separate redactedMarker.toList (secrets.map String.toList) "ab=cd?ab".toList := by
    intro secrets h
    cases hsecrets.symm.trans h
    have hne : ∀ v ∈ ["ab", "cd"].map String.toList, v ≠ [] := by decide
    have hmarker : ∀ v ∈ ["ab", "cd"].map String.toList,
        (v.all fun c => !redactedMarker.toList.contains c) = true := by decide +kernel
    refine .of_disjoint hne (.of_lt hne (by decide +kernel)) fun v hv c hc hmem => ?_
    simpa [hmem] using all_eq_true.1 (hmarker v hv) c hc
  exact ⟨hseparate, fullyRedacted_of_separate _ _ _ _ hseparate⟩

/-- The values `ab` and `abc` and the message `abc`: the last character is left. -/
theorem not_fullyRedacted_abc :
    ¬ FullyRedacted zeroFloats ⟨[("token", "abc"), ("user", "ab")], by decide⟩ sensitivePair
      "abc" := by
  intro h
  obtain ⟨-, hkept, -⟩ := h ["ab", "abc"] (by decide +kernel)
  exact hkept "abc" (by decide) 0 2 (by decide) (by decide) (by decide) ('c', some 2)
    (by decide +kernel) rfl

end LuaSkills.SkillConfig
