import Mathlib.Data.List.Zip
import Hypermark.Markdown.ListItem
import Hypermark.Proofs.Numbers
import Hypermark.Table.Render

/-!
# Cells and segments without their notices

A table is made from what its cells come to and an item of a list from what its segments come to;
what was noted on the way, and for a segment the nodes it comes from, does not count.  So cells and
segments can be taken without it, and two tables or items that are the same then are the same.

* `Table.render_quiet`: a table has the outcome that it has with quiet cells.
* `Markdown.renderItem_quiet`: the same for an item and its segments.
-/

namespace Hypermark

open Traced

/-- A computation that notes nothing on the way to its outcome. -/
def Traced.quiet {α : Type} (x : Traced α) : Traced α := ⟨[], x.outcome⟩

def Cell.quiet (c : Cell) : Cell := ⟨c.colspan, c.rowspan, c.content.quiet⟩

def Segment.quiet (s : Segment) : Segment := ⟨s.kind, [], s.rendering.quiet⟩

def Row.mapCells {α β : Type} (g : α → β) (row : Row α) : Row β := ⟨row.header, row.cells.map g⟩

/-! ## Tables -/

namespace Table

/-- A quiet cell next to its value. -/
def quietValue (c : Cell × Text) : Cell × Text := (c.1.quiet, c.2)

theorem contents_quiet (cells : List Cell) :
    (Traced.sequence ((cells.map Cell.quiet).map (·.content))).outcome =
      (Traced.sequence (cells.map (·.content))).outcome := by
  apply sequence_outcome_congr
  simp only [List.map_map]
  rfl

theorem valued_quiet (row : Row Cell) : (valued (row.mapCells Cell.quiet)).outcome =
    (valued row).outcome.map (Row.mapCells quietValue) := by
  have hvalues := contents_quiet row.cells
  unfold valued
  rw [show (row.mapCells Cell.quiet).cells = row.cells.map Cell.quiet from rfl]
  refine bind_outcome_map_right hvalues fun values => ?_
  show Except.ok (_ : Row (Cell × Text)) = Except.ok _
  rw [Except.ok.injEq, Row.mapCells, Row.mapCells, List.zip_map_left]
  rfl

theorem spannedRow_quiet (row : Row Cell) :
    (spannedRow (row.mapCells Cell.quiet)).outcome = (spannedRow row).outcome := by
  refine bind_outcome_congr (sequence_outcome_congr ?_) fun _ _ => rfl
  rw [show (row.mapCells Cell.quiet).cells = row.cells.map Cell.quiet from rfl, List.map_map,
    List.map_map, List.map_map]
  refine List.map_congr_left fun c _ => ?_
  exact bind_outcome_congr rfl fun _ _ => rfl

theorem valuesOf_quiet (row : Row (Cell × Text)) :
    valuesOf (row.mapCells quietValue) = valuesOf row := by
  rw [valuesOf, Row.mapCells, List.map_map]
  rfl

theorem map_valuesOf_quiet (rows : List (Row (Cell × Text))) :
    (rows.map (Row.mapCells quietValue)).map valuesOf = rows.map valuesOf := by
  rw [List.map_map]
  exact List.map_congr_left fun row _ => valuesOf_quiet row

theorem splitHeader_quiet (first : Row (Cell × Text)) (rest : List (Row (Cell × Text))) :
    splitHeader (first.mapCells quietValue) (rest.map (Row.mapCells quietValue)) =
      ((splitHeader first rest).1.mapCells quietValue,
        (splitHeader first rest).2.map (Row.mapCells quietValue)) :=
  Render.splitHeader_map (Row.mapCells quietValue) (fun _ => rfl) first rest

theorem widenedHeader_quiet (cells : List (Cell × Text)) :
    (widenedHeader (cells.map quietValue)).outcome = (widenedHeader cells).outcome := by
  unfold widenedHeader
  refine bind_outcome_congr (sequence_outcome_congr ?_) fun columns _ => ?_
  · simp only [List.map_map]
    rfl
  · rw [List.zipWith_map_left]
    rfl

theorem renderPlain_quiet (rows : List (Row Cell)) :
    (renderPlain (rows.map (Row.mapCells Cell.quiet))).outcome = (renderPlain rows).outcome := by
  refine bind_outcome_of_map (sequence_outcome_map valued_quiet rows) fun rows => ?_
  cases rows with
  | nil => rfl
  | cons first rest =>
    simp only [List.map_cons, splitHeader_quiet, valuesOf_quiet, map_valuesOf_quiet]

theorem renderExpanded_quiet (rows : List (Row Cell)) :
    (renderExpanded (rows.map (Row.mapCells Cell.quiet))).outcome =
      (renderExpanded rows).outcome := by
  refine bind_outcome_congr (sequence_outcome_congr ?_) fun _ _ => rfl
  rw [List.map_map, List.map_map, List.map_map]
  exact List.map_congr_left fun row _ => spannedRow_quiet row

theorem renderRowByRow_quiet (rows : List (Row Cell)) :
    (renderRowByRow (rows.map (Row.mapCells Cell.quiet))).outcome =
      (renderRowByRow rows).outcome := by
  refine bind_outcome_of_map (sequence_outcome_map valued_quiet rows) fun rows => ?_
  cases rows with
  | nil => rfl
  | cons first rest =>
    simp only [List.map_cons, splitHeader_quiet, map_valuesOf_quiet]
    exact bind_outcome_congr (widenedHeader_quiet _) fun _ _ => rfl

theorem renderRows_quiet (rows : List (Row Cell)) :
    (renderRows (rows.map (Row.mapCells Cell.quiet))).outcome = (renderRows rows).outcome := by
  have hany : ∀ q : Cell → Bool, (∀ c, q (Cell.quiet c) = q c) →
      ((rows.map (Row.mapCells Cell.quiet)).flatMap Row.cells).any q =
        (rows.flatMap Row.cells).any q := by
    intro q hq
    rw [List.flatMap_map, show (fun row => (Row.mapCells Cell.quiet row).cells) =
      fun row => row.cells.map Cell.quiet from rfl, ← List.map_flatMap, List.any_map]
    congr 1
    funext c
    exact hq c
  simp only [renderRows]
  rw [hany _ fun _ => rfl, hany _ fun _ => rfl]
  split
  · exact bind_outcome_congr rfl fun _ _ => renderExpanded_quiet rows
  split
  · exact bind_outcome_congr rfl fun _ _ => renderRowByRow_quiet rows
  · exact renderPlain_quiet rows

theorem render_quiet (rows : List (Row Cell)) (caption : Traced Text) :
    (render (rows.map (Row.mapCells Cell.quiet)) caption).outcome =
      (render rows caption).outcome := by
  unfold render
  rw [List.isEmpty_map]
  split
  · rfl
  · exact bind_outcome_congr (renderRows_quiet rows) fun _ _ => rfl

theorem render_congr {rows rows' : List (Row Cell)} {caption caption' : Traced Text}
    (h : rows'.map (Row.mapCells Cell.quiet) = rows.map (Row.mapCells Cell.quiet))
    (hc : caption'.outcome = caption.outcome) :
    (render rows' caption').outcome = (render rows caption).outcome := by
  have hcaption : (render rows' caption').outcome = (render rows' caption).outcome := by
    unfold render
    split
    · rfl
    · exact bind_outcome_congr rfl fun _ _ => bind_outcome_congr hc fun _ _ => rfl
  rw [hcaption, ← render_quiet rows', h, render_quiet]

end Table

/-! ## List items -/

def Leading.quiet (first : Leading) : Leading :=
  ⟨first.text, first.held, first.rest.map Segment.quiet⟩

namespace Markdown

theorem leading_quiet (segments : List Segment) :
    (leading (segments.map Segment.quiet)).outcome =
      (leading segments).outcome.map Leading.quiet := by
  induction segments with
  | nil => rfl
  | cons s rest ih =>
    obtain ⟨kind, nodes, rendering⟩ := s
    cases kind with
    | nestedList => rfl
    | inline =>
      refine bind_outcome_map_right rfl fun t => ?_
      split
      · exact ih
      · rfl
    | block =>
      refine bind_outcome_map_right rfl fun t => ?_
      split
      · rfl
      · rfl

theorem renderItem_quiet (depth : Nat) (marker : Text) (segments : List Segment) :
    (renderItem depth marker (segments.map Segment.quiet)).outcome =
      (renderItem depth marker segments).outcome := by
  refine bind_outcome_of_map (leading_quiet segments) fun first => ?_
  have hkinds : (first.quiet.rest.map (·.kind)) = first.rest.map (·.kind) := by
    rw [Leading.quiet, List.map_map]
    rfl
  rw [hkinds]
  refine bind_outcome_congr (sequence_outcome_congr ?_) fun _ _ => rfl
  rw [Leading.quiet, List.map_map, List.map_map, List.map_map]
  rfl

theorem renderItem_congr {depth : Nat} {marker : Text} {segments segments' : List Segment}
    (h : segments'.map Segment.quiet = segments.map Segment.quiet) :
    (renderItem depth marker segments').outcome = (renderItem depth marker segments).outcome := by
  rw [← renderItem_quiet depth marker segments', h, renderItem_quiet]

end Markdown

end Hypermark
