import Hypermark.Text.Lines

/-!
Blocks as text: headings, quotations and definition lists.

* `quote_of_allBlank`: a quotation of nothing is nothing.
-/

namespace Hypermark.Markdown

def thematicBreak : Text := "---".toList

/-! ## Headings -/

/-- Where the scan of a heading stands. -/
inductive HeadingScan where
  /-- After some spaces that may still belong to a line break. -/
  | spaces (count : Nat)
  /-- In a run of line breaks. -/
  | breaks
  /-- In the spaces after line breaks. -/
  | trailing
deriving DecidableEq, Repr

/-- A heading on one line: a run of line breaks with the spaces next to it becomes one space. -/
def headingLineFrom : HeadingScan → Text → Text
  | .spaces n, [] => List.replicate n ' '
  | _, [] => []
  | scan, c :: cs =>
    if c = ' ' then
      match scan with
      | .spaces n => headingLineFrom (.spaces (n + 1)) cs
      | _ => headingLineFrom .trailing cs
    else if c = '\n' then
      match scan with
      | .breaks => headingLineFrom .breaks cs
      | _ => ' ' :: headingLineFrom .breaks cs
    else
      match scan with
      | .spaces n => List.replicate n ' ' ++ c :: headingLineFrom (.spaces 0) cs
      | _ => c :: headingLineFrom (.spaces 0) cs

def headingLine (t : Text) : Text := headingLineFrom (.spaces 0) t

/-- A heading; nothing if it has no text. -/
def heading (level : Nat) (t : Text) : Text :=
  let line := headingLine t
  if line.isEmpty then [] else List.replicate level '#' ++ ' ' :: line

/-! ## Quotations -/

def quoteLine (line : Text) : Text := if Text.allBlank line then ['>'] else '>' :: ' ' :: line

/-- A quotation; nothing if it is blank. -/
def quote (t : Text) : Text :=
  if Text.allBlank t then [] else Text.unlines ((Text.lines t).map quoteLine)

/-! ## Definition lists -/

/-- A line of a definition list. -/
inductive Definition where
  | term (t : Text)
  | meaning (t : Text)
deriving DecidableEq, Repr

/-- A term with its meanings; nothing if it has none. -/
def definitionEntry (term : Text) (meanings : List Text) : List Text :=
  if meanings.isEmpty then []
  else [Text.unlines (term :: meanings.map fun m => ':' :: ' ' :: m)]

/-- The entries of a list whose current term has the meanings `meanings` so far. -/
def definitionEntries (term : Text) (meanings : List Text) : List Definition → List Text
  | [] => definitionEntry term meanings
  | .term t :: rest => definitionEntry term meanings ++ definitionEntries t [] rest
  | .meaning m :: rest => definitionEntries term (meanings ++ [m]) rest

/-- A definition list; meanings before the first term do not count. -/
def definitionList : List Definition → Text
  | [] => []
  | .term t :: rest => Text.joinBlocks (definitionEntries t [] rest)
  | .meaning _ :: rest => definitionList rest

/-! ## Lemmas -/

theorem quote_of_allBlank {t : Text} (h : Text.allBlank t = true) : quote t = [] := by
  simp [quote, h]

end Hypermark.Markdown
