import Hypermark.Markdown.Escape
import Hypermark.Table.Grid
import Hypermark.Text.Lines

/-!
Tables as lines of text.

A cell value of several lines takes several lines of the table.  The plain layout escapes each line
of a cell on its own, drops blank ones and pads a column only if one of its cells has several lines.
The stacked layout, for tables with spans, escapes a cell value as a whole and pads every line that
is not empty.

* `length_padRow`: padding gives a row exactly the width asked for.
* `stackedLines_ne_nil`: every row of a table is shown by at least one line.
-/

namespace Hypermark.Table

/-! ## Rows of values -/

/-- The row brought to `n` values. -/
def padRow (n : Nat) (values : List Text) : List Text := (values ++ List.replicate n []).take n

def widest (ls : List Text) : Nat := (ls.map List.length).foldl max 0

/-- The text with spaces up to a width. -/
def justify (width : Nat) (t : Text) : Text := t.rightpad width ' '

/-- The line under the header. -/
def separator (widths : List Int) : Text :=
  '|' :: ['|'].intercalate (widths.map fun w => List.replicate (max (w + 2) 3).toNat '-') ++ ['|']

/-- A line of a table around its content. -/
def bordered (content : Text) : Text :=
  "| ".toList ++ (if content.isEmpty then [' '] else content) ++ " |".toList

def joinCells (values : List Text) : Text := " | ".toList.intercalate values

/-- The number of columns of a table whose rows have these values. -/
def columnCount (header : List Text) (others : List (List Text)) : Nat :=
  max ((others.map List.length).foldl max header.length) 1

/-! ## Plain layout -/

/-- The lines of a cell value: escaped one by one, blank ones dropped, at least one. -/
def cellLines (value : Text) : List Text :=
  match ((Text.lines (Text.unifyBreaks value)).map Markdown.escapeCellLine).filter
      (!Text.allBlank ·) with
  | [] => [[]]
  | ls => ls

/-- How a column is set. -/
structure Column where
  width : Nat
  padded : Bool
deriving DecidableEq, Repr

/-- The setting of a column whose header cell comes first. -/
def columnOf (cells : List (List Text)) : Column :=
  let padded := cells.any (1 < ·.length)
  let width := if padded then (cells.map widest).foldl max 0 else widest (cells.headD [[]])
  ⟨max width 1, padded⟩

def columnsOf (n : Nat) (rows : List (List (List Text))) : List Column :=
  (List.range n).map fun i => columnOf (rows.map (·.getD i [[]]))

/-- Line `i` of a cell, padded if the column is. -/
def cellAt (i : Nat) (cell : List Text) (column : Column) : Text :=
  let line := cell.getD i []
  if column.padded then justify column.width line else line

/-- The lines of one row; a row with nothing to show is one line of spaces. -/
def rowLines (columns : List Column) (cells : List (List Text)) : List Text :=
  let height := (cells.map List.length).foldl max 0
  let rows := (List.range height).map fun i => List.zipWith (cellAt i) cells columns
  match rows.filter (!·.all Text.allBlank) with
  | [] => ["| ".toList ++ joinCells (columns.map fun c => List.replicate c.width ' ') ++ " |".toList]
  | shown => shown.map fun values => "| ".toList ++ joinCells values ++ " |".toList

/-- A table without spans. -/
def plain (header : List Text) (others : List (List Text)) : Text :=
  let n := columnCount header others
  let head := (padRow n header).map cellLines
  let body := others.map fun values => (padRow n values).map cellLines
  let columns := columnsOf n (head :: body)
  Text.unlines (rowLines columns head ++ separator (columns.map (·.width)) ::
    body.flatMap (rowLines columns))

/-! ## Stacked layout -/

/-- The segments of one display line, padded to the widths of their columns unless empty. -/
def stackedLine (columns : List (List Text)) (i : Nat) : Text :=
  joinCells (columns.map fun segments =>
    let segment := segments.getD i []
    if segment.isEmpty then [] else justify (widest segments) segment)

/-- The lines of one row; each value is escaped as a whole before it is cut. -/
def stackedLines (values : List Text) : List Text :=
  match values with
  | [] => [[]]
  | _ =>
    let columns := values.map fun v => Text.lines (Text.unifyBreaks (Markdown.escapeCellLine v))
    (List.range ((columns.map List.length).foldl max 0)).map (stackedLine columns)

/-- A table with spans; `others` are set as they are. -/
def stacked (header : List Text) (others : List (List Text)) : Text :=
  let widths := header.map fun v => (max (widest (cellLines v)) 1 : Nat)
  Text.unlines ((stackedLines header).map bordered ++ separator (widths.map Int.ofNat) ::
    others.flatMap fun values => (stackedLines values).map bordered)

/-! ## Lemmas -/

theorem length_padRow (n : Nat) (values : List Text) : (padRow n values).length = n := by
  simp [padRow]

theorem cellLines_ne_nil (value : Text) : cellLines value ≠ [] := by
  unfold cellLines
  split
  · simp
  · rename_i h; exact h

theorem stackedLines_ne_nil (values : List Text) : stackedLines values ≠ [] := by
  unfold stackedLines
  split
  · simp
  · rename_i h
    cases values with
    | nil => exact absurd rfl h
    | cons v vs =>
      simp only [List.map_cons, List.foldl_cons, ne_eq, List.map_eq_nil_iff, List.range_eq_nil]
      have mono : ∀ (ns : List Nat) (a : Nat), a ≤ ns.foldl max a := by
        intro ns
        induction ns with
        | nil => intro a; exact Nat.le_refl a
        | cons n ns ih => intro a; exact Nat.le_trans (Nat.le_max_left a n) (ih _)
      have hne : (Text.lines (Text.unifyBreaks (Markdown.escapeCellLine v))).length ≠ 0 := by
        intro h0
        have hl := List.length_eq_zero_iff.mp h0
        exact List.splitOn_ne_nil _ _ hl
      have := mono ((vs.map fun v => Text.lines (Text.unifyBreaks (Markdown.escapeCellLine v))).map
        List.length) (max 0 (Text.lines (Text.unifyBreaks (Markdown.escapeCellLine v))).length)
      omega

end Hypermark.Table
