import LuaSkills.Data.Json
import LuaSkills.Data.Numerals
import LuaSkills.SkillConfig.Document

/-!
# Declared configuration values

A package declares its configuration keys with a type and constraints. A raw text is checked against
its declaration and brought into a canonical text; what is accepted once is accepted unchanged ever
after. `Floats` stands for the 64-bit floating-point numbers of the host.
-/

namespace LuaSkills.SkillConfig

/-! ## Floating-point numbers -/

/-- What the code uses of `f64`: parsing with the text of its error, display, comparison, and the
values of JSON numbers. A finite number is read back from its display; zeros compare alike. -/
structure Floats where
  F64 : Type
  parse : String → Except String F64
  display : F64 → String
  isFinite : F64 → Bool
  isZero : F64 → Bool
  lt : F64 → F64 → Bool
  asF64 : JsonNumber → Option F64
  /-- The text of a JSON float. -/
  bitsText : ℕ → String
  parse_display : ∀ v, isFinite v = true → parse (display v) = .ok v
  parse_zero : ∃ zero, parse "0" = .ok zero ∧ isFinite zero = true ∧ isZero zero = true
  lt_zero : ∀ v w m, isZero v = true → isZero w = true → lt v m = lt w m ∧ lt m v = lt m w

/-- A host whose only number is zero. -/
def zeroFloats : Floats where
  F64 := Unit
  parse text := if text = "0" then .ok () else .error "invalid float literal"
  display _ := "0"
  isFinite _ := true
  isZero _ := true
  lt _ _ := false
  asF64 _ := some ()
  bitsText _ := "0.0"
  parse_display _ _ := rfl
  parse_zero := ⟨(), rfl, rfl, rfl⟩
  lt_zero _ _ _ _ _ := ⟨rfl, rfl⟩

/-! ## Declarations -/

def skillConfigMinSafeInteger : ℤ := -9007199254740991

def skillConfigMaxSafeInteger : ℤ := 9007199254740991

def skillConfigMaxDiagnosticValuePreviewBytes : ℕ := 4096

inductive SkillPackageConfigType where
  | integer | string | float | enum | boolean
deriving DecidableEq, Repr

def SkillPackageConfigType.asStr : SkillPackageConfigType → String
  | .integer => "integer"
  | .string => "string"
  | .float => "float"
  | .enum => "enum"
  | .boolean => "boolean"

structure SkillPackageConfigValueError where
  code : String
  message : String
deriving DecidableEq, Repr

structure SkillPackageConfigConstraints where
  minimum : Option JsonNumber
  maximum : Option JsonNumber
  minLength : Option ℕ
  maxLength : Option ℕ
deriving DecidableEq

def SkillPackageConfigConstraints.default : SkillPackageConfigConstraints where
  minimum := none
  maximum := none
  minLength := none
  maxLength := none

/-- A declaration of one key. Of an option only its machine value is kept. -/
structure SkillPackageConfigDeclaration where
  key : String
  valueType : SkillPackageConfigType
  required : Bool
  default : Option Json
  sensitive : Bool
  description : String
  constraints : SkillPackageConfigConstraints
  options : List String

/-- `serde_json::Number::as_i64`. -/
def jsonAsI64 : JsonNumber → Option ℤ
  | .posInt n => if n < 2 ^ 63 then some n else none
  | .negInt n => some (Int.negSucc n)
  | .float _ => none

/-- `serde_json::Number::to_string`. -/
def jsonNumberText (floats : Floats) : JsonNumber → String
  | .posInt n => n.repr
  | .negInt n => (Int.negSucc n).repr
  | .float bits => floats.bitsText bits

/-- The longest prefix of at most `bytes` bytes that ends between two characters. -/
def takeBytes : ℕ → List Char → List Char
  | _, [] => []
  | bytes, c :: cs => if c.utf8Size ≤ bytes then c :: takeBytes (bytes - c.utf8Size) cs else []

def diagnosticValuePreview (value : String) : String :=
  let truncatedMarker := "[truncated]"
  if value.utf8ByteSize ≤ skillConfigMaxDiagnosticValuePreviewBytes then value
  else String.ofList (takeBytes
    (skillConfigMaxDiagnosticValuePreviewBytes - truncatedMarker.utf8ByteSize) value.toList) ++
      truncatedMarker

abbrev ValueResult := Except SkillPackageConfigValueError String

namespace SkillPackageConfigDeclaration
variable (floats : Floats) (d : SkillPackageConfigDeclaration)

def about (text : String) : String := "configuration '" ++ d.key ++ "' " ++ text

def normalizeInteger (rawValue : String) : ValueResult :=
  match parseI64 rawValue with
  | .error error =>
    .error ⟨"invalid_integer",
      d.about ("requires one cross-language safe integer: " ++ error.text)⟩
  | .ok value => do
    refuseIf (¬ (skillConfigMinSafeInteger ≤ value ∧ value ≤ skillConfigMaxSafeInteger))
      ⟨"integer_out_of_range", d.about ("value must be between " ++ skillConfigMinSafeInteger.repr ++
        " and " ++ skillConfigMaxSafeInteger.repr)⟩
    let minimum := d.constraints.minimum.bind jsonAsI64
    refuseIf (minimum.any (value < ·) = true)
      ⟨"integer_out_of_range", d.about ("value " ++ value.repr ++ " is below minimum " ++
        (minimum.getD 0).repr)⟩
    let maximum := d.constraints.maximum.bind jsonAsI64
    refuseIf (maximum.any (· < value) = true)
      ⟨"integer_out_of_range", d.about ("value " ++ value.repr ++ " exceeds maximum " ++
        (maximum.getD 0).repr)⟩
    return value.repr

def normalizeString (rawValue : String) : ValueResult := do
  refuseIf (skillConfigMaxValueBytes < rawValue.utf8ByteSize)
    ⟨"string_too_long", d.about ("UTF-8 byte length exceeds the hard limit " ++
      skillConfigMaxValueBytes.repr)⟩
  let length := rawValue.length
  refuseIf (d.constraints.minLength.any (length < ·) = true)
    ⟨"string_too_short", d.about ("length " ++ length.repr ++ " is below minimum " ++
      (d.constraints.minLength.getD 0).repr)⟩
  refuseIf (d.constraints.maxLength.any (· < length) = true)
    ⟨"string_too_long", d.about ("length " ++ length.repr ++ " exceeds maximum " ++
      (d.constraints.maxLength.getD 0).repr)⟩
  return rawValue

def normalizeFloat (rawValue : String) : ValueResult :=
  match floats.parse rawValue with
  | .error error =>
    .error ⟨"invalid_float", d.about ("requires one 64-bit floating-point value: " ++ error)⟩
  | .ok value => do
    refuseIf (floats.isFinite value = false)
      ⟨"float_not_finite", d.about "requires one finite floating-point value"⟩
    let minimum := d.constraints.minimum.bind floats.asF64
    refuseIf (minimum.any (floats.lt value ·) = true)
      ⟨"float_out_of_range", d.about ("value " ++ floats.display value ++ " is below minimum " ++
        (minimum.map floats.display).getD "")⟩
    let maximum := d.constraints.maximum.bind floats.asF64
    refuseIf (maximum.any (floats.lt · value) = true)
      ⟨"float_out_of_range", d.about ("value " ++ floats.display value ++ " exceeds maximum " ++
        (maximum.map floats.display).getD "")⟩
    return if floats.isZero value then "0" else floats.display value

def normalizeEnum (rawValue : String) : ValueResult :=
  if rawValue ∈ d.options then .ok rawValue
  else
    let allowed := String.intercalate ", " d.options
    .error ⟨"enum_value_not_allowed", d.about ("value '" ++ diagnosticValuePreview rawValue ++
      "' is not allowed; expected one of: " ++ diagnosticValuePreview allowed)⟩

def normalizeBoolean (rawValue : String) : ValueResult :=
  if rawValue = "true" then .ok "true"
  else if rawValue = "false" then .ok "false"
  else .error ⟨"invalid_boolean", d.about "requires exactly 'true' or 'false'"⟩

def normalizeValueDetailed (rawValue : String) : ValueResult :=
  match d.valueType with
  | .integer => d.normalizeInteger rawValue
  | .string => d.normalizeString rawValue
  | .float => d.normalizeFloat floats rawValue
  | .enum => d.normalizeEnum rawValue
  | .boolean => d.normalizeBoolean rawValue

def normalizeValue (rawValue : String) : ConfigResult String :=
  match d.normalizeValueDetailed floats rawValue with
  | .ok value => .ok value
  | .error error => .error error.message

def normalizeTypedManifestValue (value : Json) (fieldName : String) : ConfigResult String := do
  let rawValue ← okOr
    (match d.valueType, value with
      | .integer, .number number => (jsonAsI64 number).map fun _ => jsonNumberText floats number
      | .float, .number number => some (jsonNumberText floats number)
      | .string, .string text | .enum, .string text => some text
      | .boolean, .bool flag => some (if flag then "true" else "false")
      | _, _ => none)
    (d.about (fieldName ++ " must use the declared " ++ d.valueType.asStr ++ " type"))
  d.normalizeValue floats rawValue

def normalizedDefaultValue : ConfigResult (Option String) :=
  match d.default with
  | some value => do return some (← d.normalizeTypedManifestValue floats value "default")
  | none => .ok none

/-! ## Normal forms -/

section
variable {floats : Floats} {d : SkillPackageConfigDeclaration} {raw value : String}

theorem normalizeInteger_normal (h : d.normalizeInteger raw = .ok value) :
    d.normalizeInteger value = .ok value := by
  unfold normalizeInteger at h
  split at h
  · cases h
  next n _ =>
    simp only [Except.bind_eq_ok, refuseIf_eq_ok, not_not, Bool.not_eq_true] at h
    obtain ⟨-, hsafe, -, hminimum, -, hmaximum, h⟩ := h
    cases h
    have hparse : parseI64 n.repr = .ok n := by
      refine parseI64_repr ?_ ?_
      · exact le_trans (by decide) hsafe.1
      · exact lt_of_le_of_lt hsafe.2 (by decide)
    simp only [normalizeInteger, hparse, refuseIf_of_not (not_not.2 hsafe), Except.ok_bind,
      refuseIf_of_not (hminimum ▸ Bool.false_ne_true), refuseIf_of_not (hmaximum ▸ Bool.false_ne_true)]
    rfl

theorem normalizeString_normal (h : d.normalizeString raw = .ok value) :
    d.normalizeString value = .ok value := by
  have heq : value = raw := by
    simp only [normalizeString, Except.bind_eq_ok] at h
    obtain ⟨-, -, -, -, -, -, h⟩ := h
    cases h
    rfl
  rwa [heq] at h ⊢

theorem normalizeEnum_normal (h : d.normalizeEnum raw = .ok value) :
    d.normalizeEnum value = .ok value := by
  unfold normalizeEnum at h
  split at h
  next hmem =>
    cases h
    exact if_pos hmem
  next => cases h

theorem normalizeBoolean_normal (h : d.normalizeBoolean raw = .ok value) :
    d.normalizeBoolean value = .ok value := by
  unfold normalizeBoolean at h
  split at h
  · cases h
    rfl
  split at h
  · cases h
    rfl
  · cases h

theorem normalizeFloat_of_parse (hparse : floats.parse raw = .ok v) (hfinite : floats.isFinite v = true)
    (hminimum : (d.constraints.minimum.bind floats.asF64).any (floats.lt v ·) = false)
    (hmaximum : (d.constraints.maximum.bind floats.asF64).any (floats.lt · v) = false) :
    d.normalizeFloat floats raw = .ok (if floats.isZero v then "0" else floats.display v) := by
  simp only [normalizeFloat, hparse, hfinite, hminimum, hmaximum, Bool.false_eq_true,
    Bool.true_eq_false, refuseIf_of_not not_false, Except.ok_bind]
  rfl

theorem normalizeFloat_normal (h : d.normalizeFloat floats raw = .ok value) :
    d.normalizeFloat floats value = .ok value := by
  unfold normalizeFloat at h
  split at h
  · cases h
  next v _ =>
    simp only [Except.bind_eq_ok, refuseIf_eq_ok, Bool.not_eq_true, Bool.not_eq_false] at h
    obtain ⟨-, hfinite, -, hminimum, -, hmaximum, h⟩ := h
    cases h
    split
    next hv =>
      -- every zero is written as `0`, which is read as a zero
      obtain ⟨zero, hparse, hzero, hz⟩ := floats.parse_zero
      have hlt : floats.lt zero = floats.lt v := funext fun m => (floats.lt_zero zero v m hz hv).1
      have hgt : (fun m => floats.lt m zero) = fun m => floats.lt m v :=
        funext fun m => (floats.lt_zero zero v m hz hv).2
      rw [normalizeFloat_of_parse hparse hzero (hlt ▸ hminimum) (hgt ▸ hmaximum), if_pos hz]
    next hv =>
      rw [normalizeFloat_of_parse (floats.parse_display v hfinite) hfinite hminimum hmaximum,
        if_neg hv]

theorem normalizeValueDetailed_normal (h : d.normalizeValueDetailed floats raw = .ok value) :
    d.normalizeValueDetailed floats value = .ok value := by
  unfold normalizeValueDetailed at h ⊢
  cases hd : d.valueType with
  | integer => exact normalizeInteger_normal (by rwa [hd] at h)
  | string => exact normalizeString_normal (by rwa [hd] at h)
  | float => exact normalizeFloat_normal (by rwa [hd] at h)
  | enum => exact normalizeEnum_normal (by rwa [hd] at h)
  | boolean => exact normalizeBoolean_normal (by rwa [hd] at h)

end

end SkillPackageConfigDeclaration

end LuaSkills.SkillConfig
