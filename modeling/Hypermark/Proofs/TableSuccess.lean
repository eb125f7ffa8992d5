import Hypermark.Proofs.Numbers
import Hypermark.Proofs.RowPlaces

/-!
# When a table succeeds

A table has its cells rendered in every mode.  Its modes differ in which span attributes they read:
the expanded grid reads them all, the layout row by row reads the columns of the header only and widens
it by them, the plain layout reads none.

* `render_succeeds_iff`: a table succeeds when all cells do and the spans that are read fit.
* `map_spansOfRow_rowsAmong`: the rows that are rendered are the rows found by a search.
-/

namespace Hypermark

namespace Render

open Traced

/-! ## Modes -/

def spansOfCell (c : Cell) : Spans := (c.colspan, c.rowspan)

def spansOfRow (row : Row Cell) : Row Spans := ⟨row.header, row.cells.map spansOfCell⟩

theorem cells_spansOfRow (rows : List (Row Cell)) :
    (rows.map spansOfRow).flatMap Row.cells = (rows.flatMap Row.cells).map spansOfCell := by
  rw [List.flatMap_map, List.map_flatMap]
  rfl

theorem valued_succeeds_iff {row : Row Cell} :
    (Table.valued row).Succeeds ↔ ∀ c ∈ row.cells, c.content.Succeeds := by
  unfold Table.valued
  rw [succeeds_bind_iff_left fun _ => succeeds_pure _, succeeds_sequence_iff, List.forall_mem_map]

theorem cells_of_valued {row : Row Cell} {r : Row (Cell × Text)}
    (h : (Table.valued row).outcome = .ok r) : (⟨r.header, r.cells.map Prod.fst⟩ : Row Cell) = row := by
  unfold Table.valued at h
  rw [bind_outcome_eq_ok_iff] at h
  obtain ⟨values, hv, h⟩ := h
  rw [sequence_outcome_eq_ok_iff] at hv
  have hlen := hv.length_eq
  rw [List.length_map] at hlen
  simp only [outcome_pure, Except.ok.injEq] at h
  subst h
  simp [List.map_fst_zip (Nat.le_of_eq hlen)]

theorem spanned_succeeds_iff {c : Cell} :
    (Table.spanned c).Succeeds ↔ c.content.Succeeds ∧ Readable c.colspan ∧ Readable c.rowspan := by
  unfold Table.spanned
  apply succeeds_bind_iff_and
  intro value _
  rw [← exists_span_iff, ← exists_span_iff, ← succeeds_ofSized_iff, ← succeeds_ofSized_iff]
  apply succeeds_bind_iff_and
  intro columns _
  exact succeeds_bind_iff_left fun _ => succeeds_pure _

theorem renderPlain_succeeds_iff {rows : List (Row Cell)} :
    (Table.renderPlain rows).Succeeds ↔ ∀ row ∈ rows, ∀ c ∈ row.cells, c.content.Succeeds := by
  unfold Table.renderPlain
  rw [succeeds_bind_iff_left, succeeds_sequence_iff, List.forall_mem_map]
  · simp only [valued_succeeds_iff]
  · intro rows
    split
    · exact succeeds_pure _
    · exact succeeds_pure _

theorem renderExpanded_succeeds_iff {rows : List (Row Cell)} :
    (Table.renderExpanded rows).Succeeds ↔ ∀ row ∈ rows, ∀ c ∈ row.cells,
      c.content.Succeeds ∧ Readable c.colspan ∧ Readable c.rowspan := by
  unfold Table.renderExpanded
  rw [succeeds_bind_iff_left, succeeds_sequence_iff, List.forall_mem_map]
  · have hrow : ∀ row : Row Cell, (Table.spannedRow row).Succeeds ↔
        ∀ c ∈ row.cells, c.content.Succeeds ∧ Readable c.colspan ∧ Readable c.rowspan := by
      intro row
      unfold Table.spannedRow
      rw [succeeds_bind_iff_left fun _ => succeeds_pure _, succeeds_sequence_iff,
        List.forall_mem_map]
      simp only [spanned_succeeds_iff]
    simp only [hrow]
  · intro rows
    split
    · exact succeeds_pure _
    · exact succeeds_pure _

theorem widenedHeader_succeeds_iff {cells : List (Cell × Text)} :
    (Table.widenedHeader cells).Succeeds ↔ ∀ c ∈ cells.map Prod.fst, Widens c.colspan := by
  unfold Table.widenedHeader
  rw [succeeds_bind_iff_left fun _ => succeeds_pure _, succeeds_sequence_iff, List.forall_mem_map,
    List.forall_mem_map]
  simp only [succeeds_ofSized_iff, exists_widening_iff]

theorem renderRowByRow_succeeds_iff {rows : List (Row Cell)} :
    (Table.renderRowByRow rows).Succeeds ↔
      (∀ row ∈ rows, ∀ c ∈ row.cells, c.content.Succeeds) ∧
        ∀ c ∈ headerCells rows, Widens c.colspan := by
  unfold Table.renderRowByRow
  rw [succeeds_bind_iff_and (P := ∀ c ∈ headerCells rows, Widens c.colspan),
    succeeds_sequence_iff, List.forall_mem_map]
  · simp only [valued_succeeds_iff]
  intro valuedRows h
  rw [sequence_outcome_eq_ok_iff, List.forall₂_map_left_iff] at h
  -- The valued rows are the rows with a value beside each cell.
  have hrows : valuedRows.map (fun r => (⟨r.header, r.cells.map Prod.fst⟩ : Row Cell)) = rows := by
    induction h with
    | nil => rfl
    | cons hr _ ih => rw [List.map_cons, ih, cells_of_valued hr]
  subst hrows
  cases valuedRows with
  | nil => simp [headerCells, succeeds_pure]
  | cons first rest =>
    simp only [List.map_cons, headerCells]
    rw [splitHeader_map (fun r : Row (Cell × Text) => (⟨r.header, r.cells.map Prod.fst⟩ : Row Cell))
        fun _ => rfl,
      succeeds_bind_iff_left fun _ => succeeds_pure _, widenedHeader_succeeds_iff]

theorem renderRows_succeeds_iff {rows : List (Row Cell)} :
    (Table.renderRows rows).Succeeds ↔
      (∀ row ∈ rows, ∀ c ∈ row.cells, c.content.Succeeds) ∧ SpansFit (rows.map spansOfRow) := by
  have hnote : ∀ (n : Notice) (x : Traced Text), ((note n).bind fun _ => x).Succeeds ↔ x.Succeeds :=
    fun n x => by rw [succeeds_bind_iff_and fun _ _ => Iff.rfl, and_iff_right ⟨(), rfl⟩]
  have hrow : ((rows.flatMap Row.cells).map spansOfCell).any (Table.isSignificantSpan ·.2) =
      (rows.flatMap Row.cells).any (Table.isSignificantSpan ·.rowspan) := List.any_map ..
  have hcol : ((rows.flatMap Row.cells).map spansOfCell).any (Table.isSignificantSpan ·.1) =
      (rows.flatMap Row.cells).any (Table.isSignificantSpan ·.colspan) := List.any_map ..
  simp only [Table.renderRows, SpansFit, cells_spansOfRow, hrow, hcol]
  by_cases hr : (rows.flatMap Row.cells).any (Table.isSignificantSpan ·.rowspan) = true
  · rw [if_pos hr, if_pos hr, hnote, renderExpanded_succeeds_iff, List.forall_mem_map,
      List.forall_mem_flatMap]
    exact ⟨fun h => ⟨fun r hr c hc => (h r hr c hc).1, fun r hr c hc => (h r hr c hc).2⟩,
      fun h r hr c hc => ⟨h.1 r hr c hc, h.2 r hr c hc⟩⟩
  · rw [if_neg hr, if_neg hr]
    by_cases hc : (rows.flatMap Row.cells).any (Table.isSignificantSpan ·.colspan) = true
    · rw [if_pos hc, if_pos hc, hnote, renderRowByRow_succeeds_iff]
      refine and_congr_right fun _ => ?_
      rw [show rows.map spansOfRow = rows.map fun row => ⟨row.header, row.cells.map spansOfCell⟩
        from rfl, headerCells_map, List.forall_mem_map]
      rfl
    · rw [if_neg hc, if_neg hc, renderPlain_succeeds_iff, and_true]

theorem render_succeeds_iff {rows : List (Row Cell)} {caption : Traced Text}
    (hc : caption.Succeeds) :
    (Table.render rows caption).Succeeds ↔
      (∀ row ∈ rows, ∀ c ∈ row.cells, c.content.Succeeds) ∧ SpansFit (rows.map spansOfRow) := by
  unfold Table.render
  cases rows with
  | nil => simp [succeeds_pure, SpansFit]
  | cons first rest =>
    rw [if_neg (by simp), succeeds_bind_iff_left, renderRows_succeeds_iff]
    intro t
    exact (succeeds_bind_iff_left fun _ => succeeds_pure _).mpr hc

/-! ## The rows of a table as places -/

theorem map_spansOfRow_rowsAmong (opts : Options) (path : List Nat) (scope : Scope) (i : Nat)
    (ns : List Node) : (rowsAmong opts scope ns).map spansOfRow =
      ((Place.elementsAmong path scope i ns).filter isRow).map spanRow := by
  rw [rowsAmong_eq opts path scope i ns, List.map_map]
  refine List.map_congr_left fun row _ => ?_
  simp only [Function.comp_apply, spansOfRow, Row.mapCells, List.map_map]
  rfl

end Render

end Hypermark
