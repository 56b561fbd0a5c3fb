import LuaSkills.Data.Utf8
import Mathlib.Algebra.Group.Int.Defs
import Mathlib.Data.Fin.Basic

/-!
# The concrete syntax of JSON

`JsonTree` is a value as it is written: number tokens with their digits, strings as pieces that are
either characters or escapes, brackets with the white space between them. `bytes` is the text itself.
`numbersAt` lists the number tokens with the positions where they stand, and `objects` the decoded
keys of every object at any depth.
-/

/-! ## Numbers -/

structure Digits where
  first : Fin 10
  rest : List (Fin 10)
deriving DecidableEq

namespace Digits

def digit (d : Fin 10) : Char := Char.ofNat (48 + d)

def chars (digits : Digits) : List Char := (digits.first :: digits.rest).map digit

def value (digits : Digits) : ℕ :=
  (digits.first :: digits.rest).foldl (fun (n : ℕ) (d : Fin 10) => 10 * n + d) 0

theorem isDigit_digit : ∀ d : Fin 10, (digit d).isDigit = true := by decide

theorem toNat_digit : ∀ d : Fin 10, (digit d).toNat - '0'.toNat = d := by decide

theorem isDigit_of_mem {digits : Digits} (hc : c ∈ digits.chars) : c.isDigit = true := by
  obtain ⟨d, -, rfl⟩ := List.mem_map.1 hc
  exact isDigit_digit d

theorem value_eq (digits : Digits) : digits.value = Nat.ofDigitChars 10 digits.chars 0 := by
  have hfold : ∀ (l : List (Fin 10)) (n : ℕ),
      l.foldl (fun (n : ℕ) (d : Fin 10) => 10 * n + d) n = Nat.ofDigitChars 10 (l.map digit) n := by
    intro l
    induction l with
    | nil => exact fun n => rfl
    | cons d l ih =>
      intro n
      rw [List.foldl_cons, List.map_cons, Nat.ofDigitChars_cons, toNat_digit, ih]
  exact hfold _ 0

end Digits

structure Exponent where
  upper : Bool
  /-- The sign, if one is written: `true` for minus. -/
  sign : Option Bool
  digits : Digits
deriving DecidableEq

def Exponent.chars (e : Exponent) : List Char :=
  (if e.upper then 'E' else 'e') ::
    ((match e.sign with
      | none => []
      | some minus => [if minus then '-' else '+']) ++ e.digits.chars)

structure NumberToken where
  negative : Bool
  whole : Digits
  fraction : Option Digits
  exponent : Option Exponent
  /-- Only zero itself starts with the digit zero. -/
  noLeadingZero : whole.first = 0 → whole.rest = []
deriving DecidableEq

namespace NumberToken

def chars (t : NumberToken) : List Char :=
  (if t.negative then ['-'] else []) ++ t.whole.chars ++
    (match t.fraction with
      | none => []
      | some digits => '.' :: digits.chars) ++
    (match t.exponent with
      | none => []
      | some e => e.chars)

def text (t : NumberToken) : String := String.ofList t.chars

def bytes (t : NumberToken) : List UInt8 := Utf8.encode t.chars

/-- A token without fraction and exponent. -/
def IsInteger (t : NumberToken) : Prop := t.fraction = none ∧ t.exponent = none

instance {t : NumberToken} : Decidable t.IsInteger := inferInstanceAs (Decidable (_ ∧ _))

/-- The number an integer token denotes. -/
def integer (t : NumberToken) : ℤ := if t.negative then -t.whole.value else t.whole.value

/-- The value fits a signed or an unsigned integer of 64 bits, if the token is an integer. -/
def Fits (t : NumberToken) : Prop :=
  t.IsInteger → (-2 ^ 63 ≤ t.integer ∧ t.integer < 2 ^ 63) ∨ (0 ≤ t.integer ∧ t.integer < 2 ^ 64)

instance {t : NumberToken} : Decidable t.Fits := inferInstanceAs (Decidable (_ → _))

theorem fits_of_negative {t : NumberToken} (hint : t.IsInteger) (hneg : t.negative = true) :
    t.Fits ↔ t.whole.value ≤ 2 ^ 63 := by
  simp only [Fits, hint, integer, hneg, if_true, true_imp_iff]
  omega

theorem fits_of_nonneg {t : NumberToken} (hint : t.IsInteger) (hneg : t.negative = false) :
    t.Fits ↔ t.whole.value < 2 ^ 64 := by
  simp only [Fits, hint, integer, hneg, Bool.false_eq_true, if_false, true_imp_iff]
  omega

end NumberToken

/-! ## Strings -/

structure HexDigit where
  value : Fin 16
  upper : Bool
deriving DecidableEq

def HexDigit.char (d : HexDigit) : Char :=
  if d.value < 10 then Char.ofNat (48 + d.value)
  else Char.ofNat ((if d.upper then 55 else 87) + d.value)

structure HexQuad where
  first : HexDigit
  second : HexDigit
  third : HexDigit
  fourth : HexDigit
deriving DecidableEq

namespace HexQuad

def value (q : HexQuad) : ℕ :=
  ((q.first.value * 16 + q.second.value) * 16 + q.third.value) * 16 + q.fourth.value

/-- The quad with the letter that introduces it, behind a backslash. -/
def chars (q : HexQuad) : List Char := ['u', q.first.char, q.second.char, q.third.char, q.fourth.char]

def IsHigh (q : HexQuad) : Prop := 0xD800 ≤ q.value ∧ q.value < 0xDC00
def IsLow (q : HexQuad) : Prop := 0xDC00 ≤ q.value ∧ q.value < 0xE000

end HexQuad

inductive ShortEscape where
  | quote | backslash | slash | backspace | formFeed | lineFeed | carriageReturn | tab
deriving DecidableEq

namespace ShortEscape

def letter : ShortEscape → Char
  | quote => '"'
  | backslash => '\\'
  | slash => '/'
  | backspace => 'b'
  | formFeed => 'f'
  | lineFeed => 'n'
  | carriageReturn => 'r'
  | tab => 't'

def char : ShortEscape → Char
  | quote => '"'
  | backslash => '\\'
  | slash => '/'
  | backspace => Char.ofNat 8
  | formFeed => Char.ofNat 12
  | lineFeed => '\n'
  | carriageReturn => '\r'
  | tab => '\t'

end ShortEscape

inductive StringPiece where
  | raw (c : Char) (plain : 32 ≤ c.toNat ∧ c ≠ '"' ∧ c ≠ '\\')
  | short (e : ShortEscape)
  | unit (q : HexQuad) (scalar : ¬ q.IsHigh ∧ ¬ q.IsLow)
  | pair (high low : HexQuad) (surrogates : high.IsHigh ∧ low.IsLow)

namespace StringPiece

def char : StringPiece → Char
  | raw c _ => c
  | short e => e.char
  | unit q _ => Char.ofNat q.value
  | pair high low _ => Char.ofNat (0x10000 + (high.value - 0xD800) * 0x400 + (low.value - 0xDC00))

def chars : StringPiece → List Char
  | raw c _ => [c]
  | short e => ['\\', e.letter]
  | unit q _ => '\\' :: q.chars
  | pair high low _ => '\\' :: (high.chars ++ '\\' :: low.chars)

end StringPiece

abbrev StringText := List StringPiece

namespace StringText

def decode (s : StringText) : String := String.ofList (s.map StringPiece.char)

/-- The pieces, without the opening quote and with the closing one. -/
def body (s : StringText) : List UInt8 := Utf8.encode (s.flatMap StringPiece.chars) ++ [Utf8.byte '"']

def bytes (s : StringText) : List UInt8 := Utf8.byte '"' :: s.body

end StringText

/-! ## Values -/

inductive JsonSpace where
  | space | tab | lineFeed | carriageReturn
deriving DecidableEq

def JsonSpace.char : JsonSpace → Char
  | space => ' '
  | tab => '\t'
  | lineFeed => '\n'
  | carriageReturn => '\r'

/-- The white space between two tokens. -/
abbrev Gap := List JsonSpace

def Gap.bytes (gap : Gap) : List UInt8 := gap.map fun s => Utf8.byte s.char

mutual
inductive JsonTree where
  | null
  | bool (b : Bool)
  | number (t : NumberToken)
  | string (s : StringText)
  | emptyArray (gap : Gap)
  | array (items : JsonItems)
  | emptyObject (gap : Gap)
  | object (members : JsonMembers)

/-- The items of an array, up to its closing bracket. -/
inductive JsonItems where
  | last (before : Gap) (value : JsonTree) (after : Gap)
  | more (before : Gap) (value : JsonTree) (after : Gap) (rest : JsonItems)

/-- The members of an object, up to its closing brace. -/
inductive JsonMembers where
  | last (before : Gap) (key : StringText) (colon : Gap × Gap) (value : JsonTree) (after : Gap)
  | more (before : Gap) (key : StringText) (colon : Gap × Gap) (value : JsonTree) (after : Gap)
      (rest : JsonMembers)
end

def memberHead (before : Gap) (key : StringText) (colon : Gap × Gap) : List UInt8 :=
  before.bytes ++ (key.bytes ++ (colon.1.bytes ++ Utf8.byte ':' :: colon.2.bytes))

mutual
def JsonTree.bytes : JsonTree → List UInt8
  | .null => ['n', 'u', 'l', 'l'].map Utf8.byte
  | .bool b => (if b then ['t', 'r', 'u', 'e'] else ['f', 'a', 'l', 's', 'e']).map Utf8.byte
  | .number t => t.bytes
  | .string s => s.bytes
  | .emptyArray gap => Utf8.byte '[' :: (gap.bytes ++ [Utf8.byte ']'])
  | .array items => Utf8.byte '[' :: items.bytes
  | .emptyObject gap => Utf8.byte '{' :: (gap.bytes ++ [Utf8.byte '}'])
  | .object members => Utf8.byte '{' :: members.bytes

def JsonItems.bytes : JsonItems → List UInt8
  | .last before value after => before.bytes ++ (value.bytes ++ (after.bytes ++ [Utf8.byte ']']))
  | .more before value after rest =>
    before.bytes ++ (value.bytes ++ (after.bytes ++ [Utf8.byte ',']) ++ rest.bytes)

def JsonMembers.bytes : JsonMembers → List UInt8
  | .last before key colon value after =>
    memberHead before key colon ++ (value.bytes ++ (after.bytes ++ [Utf8.byte '}']))
  | .more before key colon value after rest =>
    memberHead before key colon ++ (value.bytes ++ (after.bytes ++ [Utf8.byte ',']) ++ rest.bytes)
end

mutual
/-- The number tokens of a text that starts at a position, with their own positions. -/
def JsonTree.numbersAt : JsonTree → ℕ → List (ℕ × NumberToken)
  | .null, _ | .bool _, _ | .string _, _ | .emptyArray _, _ | .emptyObject _, _ => []
  | .number t, start => [(start, t)]
  | .array items, start => items.numbersAt (start + 1)
  | .object members, start => members.numbersAt (start + 1)

def JsonItems.numbersAt : JsonItems → ℕ → List (ℕ × NumberToken)
  | .last before value _, start => value.numbersAt (start + before.bytes.length)
  | .more before value after rest, start =>
    let own := start + before.bytes.length
    value.numbersAt own ++
      rest.numbersAt (own + (value.bytes ++ (after.bytes ++ [Utf8.byte ','])).length)

def JsonMembers.numbersAt : JsonMembers → ℕ → List (ℕ × NumberToken)
  | .last before key colon value _, start =>
    value.numbersAt (start + (memberHead before key colon).length)
  | .more before key colon value after rest, start =>
    let own := start + (memberHead before key colon).length
    value.numbersAt own ++
      rest.numbersAt (own + (value.bytes ++ (after.bytes ++ [Utf8.byte ','])).length)
end

/-- The decoded keys of the members, in order. -/
def JsonMembers.keys : JsonMembers → List String
  | .last _ key _ _ _ => [key.decode]
  | .more _ key _ _ _ rest => key.decode :: rest.keys

mutual
/-- The keys of every object of a value, the value itself included. -/
def JsonTree.objects : JsonTree → List (List String)
  | .null | .bool _ | .number _ | .string _ | .emptyArray _ => []
  | .emptyObject _ => [[]]
  | .array items => items.objects
  | .object members => members.keys :: members.objects

def JsonItems.objects : JsonItems → List (List String)
  | .last _ value _ => value.objects
  | .more _ value _ rest => value.objects ++ rest.objects

def JsonMembers.objects : JsonMembers → List (List String)
  | .last _ _ _ value _ => value.objects
  | .more _ _ _ value _ rest => value.objects ++ rest.objects
end

/-- A document: one value and the white space around it. -/
structure JsonDocument where
  before : Gap
  value : JsonTree
  after : Gap

namespace JsonDocument

def bytes (doc : JsonDocument) : List UInt8 := doc.before.bytes ++ (doc.value.bytes ++ doc.after.bytes)

/-- The number tokens with their positions in the document. -/
def numbers (doc : JsonDocument) : List (ℕ × NumberToken) := doc.value.numbersAt doc.before.bytes.length

def objects (doc : JsonDocument) : List (List String) := doc.value.objects

end JsonDocument
