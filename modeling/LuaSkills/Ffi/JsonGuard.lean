import LuaSkills.Data.JsonSyntax
import LuaSkills.Data.Numerals
import LuaSkills.Ffi.Transport
import Mathlib.Algebra.Order.Field.Rat

/-!
# Validation of raw requests

`validate` looks at a request before it is decoded into types. The visitor `UniqueJson` runs under the
JSON parser and refuses objects with repeated members; a scanner over the bytes then refuses integers
that no machine type holds, which the parser would turn into floats. The parser itself is a parameter:
`SerdeJson` says which documents it accepts and what it delivers for a number token.
-/

namespace LuaSkills.Ffi.Guard

open Transport

variable {bytes : List UInt8}

/-- The value of a binary64 float, if it is finite. -/
def floatValue (bits : ℕ) : Option ℚ :=
  let sign : ℚ := if bits / 2 ^ 63 % 2 = 1 then -1 else 1
  let exponent := bits / 2 ^ 52 % 2 ^ 11
  let fraction : ℕ := bits % 2 ^ 52
  if exponent = 2 ^ 11 - 1 then none
  else if exponent = 0 then some (sign * fraction / 2 ^ 1074)
  else some (sign * (2 ^ 52 + fraction) * 2 ^ exponent / 2 ^ 1075)

/-- What the parser hands to a visitor for a number token. -/
inductive Delivered where
  | u64 (n : ℕ)
  | i64 (i : ℤ)
  /-- A float, by its bits. -/
  | f64 (bits : ℕ)
deriving DecidableEq

def Delivered.value : Delivered → Option ℚ
  | .u64 n => some n
  | .i64 i => some i
  | .f64 bits => floatValue bits

/-- The parser, with its grammar and its recursion limit. -/
structure SerdeJson where
  /-- The document that bytes up to their end are, if they are accepted. -/
  parse : List UInt8 → Option JsonDocument
  deliver : NumberToken → Delivered

/-- What the parser documents. -/
structure SerdeJson.Documented (serde : SerdeJson) : Prop where
  /-- A document is accepted for the text that it is. -/
  text : ∀ {bytes doc}, serde.parse bytes = some doc → doc.bytes = bytes
  /-- A number beyond the floats is an error. -/
  finite : ∀ {bytes doc}, serde.parse bytes = some doc →
    ∀ e ∈ doc.numbers, (serde.deliver e.2).value.isSome = true
  unsigned : ∀ {t : NumberToken}, t.IsInteger → t.negative = false → t.whole.value < 2 ^ 64 →
    serde.deliver t = .u64 t.whole.value
  signed : ∀ {t : NumberToken}, t.IsInteger → t.negative = true → 0 < t.whole.value →
    t.whole.value ≤ 2 ^ 63 → serde.deliver t = .i64 (-t.whole.value)
  /-- The integer `-0` is the float negative zero. -/
  negativeZero : ∀ {t : NumberToken}, t.IsInteger → t.negative = true → t.whole.value = 0 →
    serde.deliver t = .f64 (2 ^ 63)

/-! ## The visitor -/

inductive UniqueJsonError where
  | notFinite | duplicateMember
deriving DecidableEq

namespace UniqueJson
variable (serde : SerdeJson)

def visitNumber : Delivered → Except UniqueJsonError Unit
  | .u64 _ | .i64 _ => .ok ()
  | .f64 bits => if (floatValue bits).isSome then .ok () else .error .notFinite

mutual
def visit : JsonTree → Except UniqueJsonError Unit
  | .null | .bool _ | .string _ | .emptyArray _ | .emptyObject _ => .ok ()
  | .number t => visitNumber (serde.deliver t)
  | .array items => visitSeq items
  | .object members => visitMap [] members

def visitSeq : JsonItems → Except UniqueJsonError Unit
  | .last _ value _ => visit value
  | .more _ value _ rest => do
    visit value
    visitSeq rest

/-- The members of an object whose keys so far are given. -/
def visitMap (keys : List String) : JsonMembers → Except UniqueJsonError Unit
  | .last _ key _ value _ => do
    refuseIf (key.decode ∈ keys) .duplicateMember
    visit value
  | .more _ key _ value _ rest => do
    refuseIf (key.decode ∈ keys) .duplicateMember
    visit value
    visitMap (key.decode :: keys) rest
end

end UniqueJson

/-! ## The scanner -/

def StartsNumber (b : UInt8) : Prop := b = Utf8.byte '-' ∨ Utf8.byte '0' ≤ b ∧ b ≤ Utf8.byte '9'

def InNumber (b : UInt8) : Prop :=
  Utf8.byte '0' ≤ b ∧ b ≤ Utf8.byte '9' ∨ b = Utf8.byte '-' ∨ b = Utf8.byte '+' ∨ b = Utf8.byte '.' ∨
    b = Utf8.byte 'e' ∨ b = Utf8.byte 'E'

instance {b : UInt8} : Decidable (StartsNumber b) := inferInstanceAs (Decidable (_ ∨ _))
instance {b : UInt8} : Decidable (InNumber b) := inferInstanceAs (Decidable (_ ∨ _))

theorem StartsNumber.inNumber (h : StartsNumber b) : InNumber b :=
  h.elim (fun h => .inr (.inl h)) .inl

/-- The index after the closing quote of a string; `none` stands for an index out of bounds. -/
def stringEnd (bytes : List UInt8) (index : ℕ) : Option ℕ :=
  match _h : bytes[index]? with
  | none => none
  | some b =>
    if b = Utf8.byte '"' then some (index + 1)
    else if b = Utf8.byte '\\' then stringEnd bytes (index + 1 + 1)
    else stringEnd bytes (index + 1)
termination_by bytes.length - index
decreasing_by
  all_goals
    have := (List.getElem?_eq_some_iff.1 _h).1
    omega

/-- The index after a number token. -/
def numberEnd (bytes : List UInt8) (index : ℕ) : ℕ :=
  if h : index < bytes.length then
    if InNumber bytes[index] then numberEnd bytes (index + 1) else index
  else index
termination_by bytes.length - index

theorem lt_stringEnd (h : stringEnd bytes index = some next) : index < next := by
  induction index using stringEnd.induct bytes with
  | case1 index hnone =>
    rw [stringEnd, hnone] at h
    cases h
  | case2 index hsome =>
    rw [stringEnd, hsome] at h
    simp only [↓reduceIte, Option.some.injEq] at h
    omega
  | case3 index hsome hquote ih =>
    rw [stringEnd, hsome] at h
    simp only [if_neg hquote, ↓reduceIte] at h
    have := ih h
    omega
  | case4 index b hsome hquote hslash ih =>
    rw [stringEnd, hsome] at h
    simp only [if_neg hquote, if_neg hslash] at h
    have := ih h
    omega

theorem le_numberEnd : index ≤ numberEnd bytes index := by
  induction index using numberEnd.induct bytes with
  | case1 index hlt hin ih =>
    rw [numberEnd, dif_pos hlt, if_pos hin]
    omega
  | case2 index hlt hin => rw [numberEnd, dif_pos hlt, if_neg hin]
  | case3 index hge => rw [numberEnd, dif_neg hge]

theorem lt_numberEnd (hlt : index < bytes.length)
    (hin : InNumber bytes[index]) : index < numberEnd bytes index := by
  rw [numberEnd, dif_pos hlt, if_pos hin]
  exact le_numberEnd

/-- The check of one token: only a token without fraction and exponent is parsed. -/
def checkToken (token : String) : Except EmbeddedFfiStatus Unit :=
  if token.toList.any fun c => c = '.' || c = 'e' || c = 'E' then .ok ()
  else
    let valid :=
      if token.toList.head? = some '-' then (parseI64 token).toOption.isSome
      else (parseU64 token).toOption.isSome
    if valid then .ok () else .error .invalidArgument

inductive ScanEnd where
  | accepted
  | refused (status : EmbeddedFfiStatus)
  /-- An index out of bounds. -/
  | panicked
deriving DecidableEq

/-- The tokens a scan has inspected, with the indices where they start, and its end. -/
structure Scan where
  inspected : List (ℕ × List UInt8)
  result : ScanEnd
deriving DecidableEq

/-- The loop over the bytes, from an index. -/
def scan (bytes : List UInt8) (index : ℕ) (inspected : List (ℕ × List UInt8)) : Scan :=
  if h : index < bytes.length then
    if bytes[index] = Utf8.byte '"' then
      match _h : stringEnd bytes (index + 1) with
      | none => ⟨inspected, .panicked⟩
      | some next => scan bytes next inspected
    else if hstart : StartsNumber bytes[index] then
      let next := numberEnd bytes index
      let token := (bytes.drop index).take (next - index)
      let inspected := inspected ++ [(index, token)]
      match (Utf8.decode? token).elim (.error .invalidArgument) checkToken with
      | .error status => ⟨inspected, .refused status⟩
      | .ok _ => scan bytes next inspected
    else scan bytes (index + 1) inspected
  else ⟨inspected, .accepted⟩
termination_by bytes.length - index
decreasing_by
  · have := lt_stringEnd _h
    omega
  · have := lt_numberEnd h hstart.inNumber
    omega
  · omega

/-- `validate`; `none` stands for a panic. -/
def validate (serde : SerdeJson) (bytes : List UInt8) : Option (Except EmbeddedFfiStatus Unit) :=
  match serde.parse bytes with
  | none => some (.error .invalidArgument)
  | some doc =>
    -- In the source the visitor runs inside the parser; the failures of both have one status.
    match UniqueJson.visit serde doc.value with
    | .error _ => some (.error .invalidArgument)
    | .ok _ =>
      match (scan bytes 0 []).result with
      | .accepted => some (.ok ())
      | .refused status => some (.error status)
      | .panicked => none

end LuaSkills.Ffi.Guard
