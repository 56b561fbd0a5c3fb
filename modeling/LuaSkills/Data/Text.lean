import Mathlib.Data.List.Basic

/-!
# Operations of `str`

The operations on texts that parsers and path builders use, as functions on the characters.
-/

namespace Text

/-- `str::trim_start_matches` of one character. -/
def trimStartMatches (c : Char) (text : String) : String :=
  String.ofList (text.toList.dropWhile (· = c))

/-- `str::trim_end_matches` of one character. -/
def trimEndMatches (c : Char) (text : String) : String :=
  String.ofList (text.toList.reverse.dropWhile (· = c)).reverse

/-- The characters with every match of `pat` replaced from left to right; `skip` characters of a match
are still to be passed over. -/
def replaceFrom (pat new : List Char) : ℕ → List Char → List Char
  | _, [] => []
  | skip + 1, _ :: cs => replaceFrom pat new skip cs
  | 0, c :: cs =>
    if pat.isPrefixOf (c :: cs) then new ++ replaceFrom pat new (pat.length - 1) cs
    else c :: replaceFrom pat new 0 cs

/-- `str::replace` for a pattern that is not empty. -/
def replace (text pat new : String) : String :=
  String.ofList (replaceFrom pat.toList new.toList 0 text.toList)

def startsWith (text pat : String) : Bool := pat.toList.isPrefixOf text.toList

def endsWith (text pat : String) : Bool := pat.toList.isSuffixOf text.toList

/-- `str::strip_prefix`. -/
def withoutStart (text pat : String) : Option String :=
  if startsWith text pat then some (String.ofList (text.toList.drop pat.length)) else none

/-- The characters of `str::split` at one character. -/
def splitChars (c : Char) : List Char → List (List Char)
  | [] => [[]]
  | x :: xs =>
    if x = c then [] :: splitChars c xs
    else
      match splitChars c xs with
      | [] => [[x]]
      | part :: parts => (x :: part) :: parts

def split (c : Char) (text : String) : List String := (splitChars c text.toList).map String.ofList

def toAsciiLowercase (text : String) : String := String.ofList (text.toList.map Char.toLower)

def toAsciiUppercase (text : String) : String := String.ofList (text.toList.map Char.toUpper)

def isAsciiHexdigit (c : Char) : Bool :=
  c.isDigit || ('a' ≤ c && c ≤ 'f') || ('A' ≤ c && c ≤ 'F')

/-- `str::len` of a text of ASCII characters, and the length of its UTF-8 bytes in general. -/
def byteLength (text : String) : ℕ := text.utf8ByteSize

end Text
