import Hypermark.Text.Blank

/-!
Lines: a text is cut at its line feeds and put together again.

* `unlines_lines`: nothing is lost by cutting.
* `not_mem_unifyBreaks`: after `unifyBreaks` the line feed is the only line break.
-/

namespace Hypermark.Text

/-- The lines of a text; there is always at least one. -/
def lines (t : Text) : List Text := t.splitOn '\n'

def unlines (ls : List Text) : Text := ['\n'].intercalate ls

/-- Parts with a blank line between each two. -/
def joinBlocks (parts : List Text) : Text := ['\n', '\n'].intercalate parts

/-- A carriage return, alone or before a line feed, becomes a line feed. -/
def unifyBreaks : Text → Text
  | [] => []
  | '\r' :: '\n' :: cs => '\n' :: unifyBreaks cs
  | '\r' :: cs => '\n' :: unifyBreaks cs
  | c :: cs => c :: unifyBreaks cs

/-- Every run of line feeds becomes one space. -/
def breaksToSpaces : Text → Text
  | [] => []
  | '\n' :: '\n' :: cs => breaksToSpaces ('\n' :: cs)
  | '\n' :: cs => ' ' :: breaksToSpaces cs
  | c :: cs => c :: breaksToSpaces cs

/-! ## Lemmas -/

theorem unlines_lines (t : Text) : unlines (lines t) = t := List.intercalate_splitOn '\n'

theorem lines_unlines {ls : List Text} (hne : ls ≠ []) (h : ∀ l ∈ ls, '\n' ∉ l) :
    lines (unlines ls) = ls := List.splitOn_intercalate '\n' h hne

theorem not_mem_unifyBreaks (t : Text) : '\r' ∉ unifyBreaks t := by
  fun_induction unifyBreaks t with
  | case1 => simp
  | case2 cs ih => simp [ih]
  | case3 cs _ ih => simp [ih]
  | case4 c cs _ hc ih => simp only [List.mem_cons, not_or]; exact ⟨fun h => hc h.symm, ih⟩

end Hypermark.Text
