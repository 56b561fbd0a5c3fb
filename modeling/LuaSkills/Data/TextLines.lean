import LuaSkills.Data.Text
import Mathlib.Tactic.Common

/-!
# Lines of a text

`lines` is `str::lines`, which ends a line at LF or at CR LF. `logicalLines` also ends one at a CR
alone. Once every line end is rewritten to LF the two agree (`lines_unifyLineEnds`), whatever mix of
ends the text has.
-/

namespace Text

/-- The lines of a text that starts with `c`, from the lines of what follows `c` in it. -/
def consLine (c : Char) : List (List Char) → List (List Char)
  | [] => [[c]]
  | line :: rest => (c :: line) :: rest

/-- `str::lines`: a final line end starts no further line. -/
def lines : List Char → List (List Char)
  | [] => []
  | '\r' :: '\n' :: cs => [] :: lines cs
  | '\n' :: cs => [] :: lines cs
  | c :: cs => consLine c (lines cs)

/-- The lines of a text in which CR LF, LF and CR each end a line. -/
def logicalLines : List Char → List (List Char)
  | [] => []
  | '\r' :: '\n' :: cs => [] :: logicalLines cs
  | '\r' :: cs => [] :: logicalLines cs
  | '\n' :: cs => [] :: logicalLines cs
  | c :: cs => consLine c (logicalLines cs)

/-- The text with each line end rewritten to LF, CR LF first. -/
def unifyLineEnds (text : String) : String := replace (replace text "\r\n" "\n") "\r" "\n"

def unifyChars (cs : List Char) : List Char :=
  replaceFrom ['\r'] ['\n'] 0 (replaceFrom ['\r', '\n'] ['\n'] 0 cs)

theorem toList_unifyLineEnds (text : String) :
    (unifyLineEnds text).toList = unifyChars text.toList := by
  simp [unifyLineEnds, replace, unifyChars]

theorem unifyChars_nil : unifyChars [] = [] := rfl

theorem unifyChars_crlf (cs : List Char) : unifyChars ('\r' :: '\n' :: cs) = '\n' :: unifyChars cs := by
  simp [unifyChars, replaceFrom]

theorem unifyChars_cr (h : ∀ rest, cs ≠ '\n' :: rest) :
    unifyChars ('\r' :: cs) = '\n' :: unifyChars cs := by
  cases cs with
  | nil => rfl
  | cons c cs =>
    have hc : ¬ '\n' = c := fun hc => h cs (by rw [hc])
    simp [unifyChars, replaceFrom, hc]

theorem unifyChars_cons (h : c ≠ '\r') : unifyChars (c :: cs) = c :: unifyChars cs := by
  simp [unifyChars, replaceFrom, h.symm]

theorem lines_cons (hcr : c ≠ '\r') (hlf : c ≠ '\n') : lines (c :: cs) = consLine c (lines cs) := by
  rw [lines]
  · exact fun _ h _ => hcr h
  · exact hlf

/-- Unifying the line ends makes `str::lines` find the logical lines. -/
theorem lines_unifyChars (cs : List Char) : lines (unifyChars cs) = logicalLines cs := by
  fun_induction logicalLines cs with
  | case1 => rfl
  | case2 cs ih => rw [unifyChars_crlf, lines, ih]
  | case3 cs hcrlf ih => rw [unifyChars_cr hcrlf, lines, ih]
  | case4 cs ih => rw [unifyChars_cons (by decide), lines, ih]
  | case5 c cs hcrlf hcr hlf ih =>
    have hcr' : c ≠ '\r' := hcr
    rw [unifyChars_cons hcr', lines_cons hcr' hlf, ih]

theorem lines_unifyLineEnds (text : String) :
    lines (unifyLineEnds text).toList = logicalLines text.toList := by
  rw [toList_unifyLineEnds, lines_unifyChars]

end Text
