import Hypermark.Table.Layout

/-!
Tables from rendered cells.

A table without spans is set plainly.  If a cell reaches over rows the rows are laid out in a grid;
if cells only reach over columns each row keeps its own cells and the header alone is widened.

* `render_nil`: a table without rows is nothing, not even its caption.
-/

namespace Hypermark.Table

/-- The values of a row together with their cells. -/
def valued (row : Row Cell) : Traced (Row (Cell × Text)) :=
  (Traced.sequence (row.cells.map (·.content))).bind fun values =>
    Traced.pure ⟨row.header, row.cells.zip values⟩

def valuesOf (row : Row (Cell × Text)) : List Text := row.cells.map Prod.snd

/-- A cell with its value and its spans, found in this order. -/
def spanned (cell : Cell) : Traced Spanned :=
  cell.content.bind fun value =>
    (Traced.ofSized (span cell.colspan)).bind fun columns =>
      (Traced.ofSized (span cell.rowspan)).bind fun rows => Traced.pure ⟨value, columns, rows⟩

def spannedRow (row : Row Cell) : Traced (Row Spanned) :=
  (Traced.sequence (row.cells.map spanned)).bind fun cells => Traced.pure ⟨row.header, cells⟩

/-- The values of the header, with an empty one for each further column of a cell. -/
def widenedHeader (cells : List (Cell × Text)) : Traced (List Text) :=
  (Traced.sequence (cells.map fun c => Traced.ofSized (widening c.1.colspan))).bind fun columns =>
    Traced.pure <|
      (List.zipWith (fun c n => c.2 :: List.replicate (n - 1) []) cells columns).flatten

/-! ## Modes -/

def renderPlain (rows : List (Row Cell)) : Traced Text :=
  (Traced.sequence (rows.map valued)).bind fun rows =>
    match rows with
    | [] => Traced.pure []
    | first :: rest =>
      let split := splitHeader first rest
      Traced.pure (plain (valuesOf split.1) (split.2.map valuesOf))

def renderExpanded (rows : List (Row Cell)) : Traced Text :=
  (Traced.sequence (rows.map spannedRow)).bind fun rows =>
    match (expandRows rows []).1 with
    | [] => Traced.pure []
    | first :: rest =>
      let split := splitHeader first rest
      let n := columnCount split.1.cells (split.2.map Row.cells)
      Traced.pure (stacked (padRow n split.1.cells) (split.2.map fun row => padRow n row.cells))

def renderRowByRow (rows : List (Row Cell)) : Traced Text :=
  (Traced.sequence (rows.map valued)).bind fun rows =>
    match rows with
    | [] => Traced.pure []
    | first :: rest =>
      let split := splitHeader first rest
      (widenedHeader split.1.cells).bind fun header =>
        let n := columnCount header (split.2.map valuesOf)
        Traced.pure (stacked (padRow n header) (split.2.map valuesOf))

/-- The rows as text, in the mode that their spans ask for. -/
def renderRows (rows : List (Row Cell)) : Traced Text :=
  let cells := rows.flatMap Row.cells
  if cells.any (isSignificantSpan ·.rowspan) then
    (Traced.note .tableExpanded).bind fun _ => renderExpanded rows
  else if cells.any (isSignificantSpan ·.colspan) then
    (Traced.note .tableRowByRow).bind fun _ => renderRowByRow rows
  else renderPlain rows

/-- A table under its caption. -/
def render (rows : List (Row Cell)) (caption : Traced Text) : Traced Text :=
  if rows.isEmpty then Traced.pure []
  else
    (renderRows rows).bind fun t =>
      caption.bind fun c => Traced.pure (if c.isEmpty then t else Text.joinBlocks [c, t])

/-! ## Lemmas -/

theorem render_nil (caption : Traced Text) : render [] caption = Traced.pure [] := rfl

end Hypermark.Table
