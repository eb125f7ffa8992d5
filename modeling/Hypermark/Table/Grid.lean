import Hypermark.Text.Integer
import Hypermark.Traced

/-!
The grid of a table: rows of cells, some of which reach over several columns or rows.

`expandRow` lays one row out from left to right.  It is told for each column in how many rows a cell
from above still stands there; such columns stay empty, and every cell of the row takes the first
columns that are free.

* `length_expandRows`: every row stays a row.
* `splitHeader_length`: taking the header row out keeps all other rows.
-/

namespace Hypermark

/-- A table row; `header` marks the rows that can head the table. -/
structure Row (α : Type) where
  header : Bool
  cells : List α
deriving Repr

/-- A cell: its span attributes as written and its rendering. -/
structure Cell where
  colspan : Option Text
  rowspan : Option Text
  content : Traced Text

namespace Table

/-! ## Spans -/

/-- A span attribute that changes the layout: present and not one. -/
def isSignificantSpan (raw : Option Text) : Bool :=
  match raw with
  | none => false
  | some t => Text.trim t != ['1']

/-- An optional number, by the rules of `Text.readInteger`. -/
def readOptional (raw : Option Text) : Except Oversize (Option Int) :=
  match raw with
  | none => .ok none
  | some t => Text.readInteger t

/-- The number of columns or rows that a span attribute asks for; one if it is no positive number. -/
def span (raw : Option Text) : Except Oversize Nat :=
  (readOptional raw).map fun n => max (n.getD 1).toNat 1

/-- The columns of a cell where its value is followed by an empty one for each further column. -/
def widening (raw : Option Text) : Except Oversize Nat :=
  (span raw).bind fun n => repeated (n - 1) n

/-! ## Header -/

/-- The row that heads a table, which is the first one marked so or else the first, and all other
rows in order. -/
def splitHeader {α : Type} (first : Row α) (rest : List (Row α)) : Row α × List (Row α) :=
  if first.header then (first, rest)
  else
    match rest.findIdx? Row.header with
    | some i =>
      match rest[i]? with
      | some r => (r, first :: rest.eraseIdx i)
      | none => (first, rest)
    | none => (first, rest)

/-! ## Expansion -/

/-- A cell with its value and its extent. -/
structure Spanned where
  value : Text
  columns : Nat
  rows : Nat
deriving DecidableEq, Repr

/-- Lays a row out, `slots` telling for each column in how many rows from here on it is covered.
Gives the values of the row, column by column, and the slots for the next row. -/
def expandRow : List Spanned → (slots : List Nat) → List Text × List Nat
  | [], slots =>
    let covered := slots.takeWhile (0 < ·)
    (covered.map fun _ => [], covered.map (· - 1) ++ slots.drop covered.length)
  | cell :: cells, slots =>
    let covered := slots.takeWhile (0 < ·)
    let free := slots.drop covered.length
    let next := expandRow cells (free.drop cell.columns)
    (covered.map (fun _ => []) ++ cell.value :: List.replicate (cell.columns - 1) [] ++ next.1,
      covered.map (· - 1) ++ List.replicate cell.columns (cell.rows - 1) ++ next.2)

/-- Lays rows out from top to bottom. -/
def expandRows : List (Row Spanned) → (slots : List Nat) → List (Row Text) × List Nat
  | [], slots => ([], slots)
  | row :: rows, slots =>
    let this := expandRow row.cells slots
    let next := expandRows rows this.2
    (⟨row.header, this.1⟩ :: next.1, next.2)

/-! ## Lemmas -/

theorem span_of_widening {raw : Option Text} {n : Nat} (h : widening raw = .ok n) :
    span raw = .ok n := by
  unfold widening at h
  cases hspan : span raw with
  | error size =>
    rw [hspan] at h
    cases h
  | ok m =>
    rw [hspan] at h
    have hm : repeated (m - 1) m = .ok n := h
    unfold repeated at hm
    split at hm
    · exact hm
    · cases hm

theorem splitHeader_length {α : Type} (first : Row α) (rest : List (Row α)) :
    (splitHeader first rest).2.length = rest.length := by
  unfold splitHeader
  split
  · rfl
  · split
    · rename_i i _
      split
      · rename_i r hr
        have hi : i < rest.length := by
          rcases Nat.lt_or_ge i rest.length with h | h
          · exact h
          · rw [List.getElem?_eq_none h] at hr; cases hr
        simp only [List.length_cons, List.length_eraseIdx, hi, if_true]
        omega
      · rfl
    · rfl

theorem length_expandRows (rows : List (Row Spanned)) (slots : List Nat) :
    (expandRows rows slots).1.length = rows.length := by
  induction rows generalizing slots with
  | nil => rfl
  | cons row rows ih => simp [expandRows, ih]

end Table

end Hypermark
