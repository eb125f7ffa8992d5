import Mathlib.Data.List.InsertIdx
import Hypermark.Proofs.RowspanGrid
import Hypermark.Proofs.TableLines

/-!
# Where the modes put the cells of a table

A table is set in one of three modes.  Each gives every row its values, column by column, and so a
column to each cell: its number in the row, the sum of the spans before it, or what the cells from
above leave free.  In all of them each cell stands alone in its column, and nothing else stands in
the row.

* `Arrangement`: a table with its header row taken out, each row with its values and its columns.
* `fits_of_mem_arrangement`: the cells of a row stand in its values.
* `renderRows_eq`: a table that is rendered is the text of its arrangement.
-/

namespace Hypermark

/-- The rendering of a cell, nothing if that fails. -/
def Cell.value (c : Cell) : Text :=
  match c.content.outcome with
  | .ok t => t
  | .error _ => []

namespace Table

open Text Traced

/-! ## Modes -/

inductive Mode where
  | plain
  | expanded
  | rowByRow
deriving DecidableEq, Repr

/-- The mode that the spans of the cells ask for. -/
def modeOf (rows : List (Row Cell)) : Mode :=
  if (rows.flatMap Row.cells).any (isSignificantSpan ·.rowspan) then .expanded
  else if (rows.flatMap Row.cells).any (isSignificantSpan ·.colspan) then .rowByRow
  else .plain

/-- A span that is read, one if it cannot be. -/
def extent (raw : Option Text) : Nat :=
  match span raw with
  | .ok n => n
  | .error _ => 1

def settled (c : Cell) : Spanned := ⟨c.value, extent c.colspan, extent c.rowspan⟩

/-! ## Rows -/

/-- A row with its values, column by column, and the columns of its cells. -/
structure Arranged where
  row : Row Cell
  values : List Text
  columns : List Nat

/-- Each cell takes one column. -/
def inOrder (row : Row Cell) : Arranged :=
  ⟨row, row.cells.map Cell.value, List.range row.cells.length⟩

/-- The columns of the cells of a row where `slots` counts the cells from above. -/
def columnsIn : List Spanned → (slots : List Nat) → List Nat
  | [], _ => []
  | cell :: cells, slots =>
    let finish := skipped slots + cell.columns
    skipped slots :: (columnsIn cells (slots.drop finish)).map (finish + ·)

/-- Each cell takes the columns it spans, as far as they are free. -/
def laidOut (row : Row Cell) (slots : List Nat) : Arranged :=
  ⟨row, (expandRow (row.cells.map settled) slots).1, columnsIn (row.cells.map settled) slots⟩

def laidOutRows : List (Row Cell) → (slots : List Nat) → List Arranged
  | [], _ => []
  | row :: rows, slots =>
    laidOut row slots :: laidOutRows rows (expandRow (row.cells.map settled) slots).2

/-- Each cell of a row stands alone in its column, and there is nothing else in the row. -/
structure Fits (cells columnTexts : List Text) (columns : List Nat) : Prop where
  ordered : columns.Pairwise (· < ·)
  within : ∀ j ∈ columns, j < columnTexts.length
  shown : List.Forall₂ (fun v j => columnTexts.getD j [] = v) cells columns
  blank : ∀ j, j ∉ columns → columnTexts.getD j [] = []

def Arranged.Fits (a : Arranged) : Prop :=
  Table.Fits (a.row.cells.map Cell.value) a.values a.columns

/-! ## Tables -/

/-- The position of the row that heads a table: the first one marked so, or else the first. -/
def headerIndex {α : Type} (rows : List (Row α)) : Nat := (rows.findIdx? Row.header).getD 0

/-- A table in a mode, with its header row taken out. -/
structure Arrangement where
  mode : Mode
  header : Arranged
  others : List Arranged

def arrangement (rows : List (Row Cell)) : Arrangement :=
  let i := headerIndex rows
  let first := rows.getD i ⟨false, []⟩
  match modeOf rows with
  | .plain => ⟨.plain, inOrder first, (rows.eraseIdx i).map inOrder⟩
  | .expanded =>
    ⟨.expanded, (laidOutRows rows []).getD i ⟨first, [], []⟩, (laidOutRows rows []).eraseIdx i⟩
  | .rowByRow => ⟨.rowByRow, laidOut first [], (rows.eraseIdx i).map inOrder⟩

namespace Arrangement

/-- The number of columns of a table. -/
def columns (a : Arrangement) : Nat := columnCount a.header.values (a.others.map Arranged.values)

/-- Row by row, a row has as many columns as cells; in the other modes as many as the table. -/
def width (a : Arrangement) (row : Arranged) : Nat :=
  if a.mode = .rowByRow then row.values.length else a.columns

/-- The table in segments. -/
def sheet (a : Arrangement) : Sheet :=
  let header := a.header.values
  let others := a.others.map Arranged.values
  match a.mode with
  | .plain => plainSheet header others
  | .expanded => stackedSheet (padRow a.columns header) (others.map (padRow a.columns))
  | .rowByRow => stackedSheet (padRow a.columns header) others

end Arrangement

/-- A table under its caption. -/
def captioned (caption table : Text) : Text :=
  if caption.isEmpty then table else joinBlocks [caption, table]

/-! ## The cells of a row -/

theorem extent_pos (raw : Option Text) : 0 < extent raw := by
  unfold extent
  cases h : span raw with
  | ok n => exact span_pos h
  | error size => exact Nat.one_pos

theorem settled_extends (c : Cell) : (settled c).Extends :=
  ⟨extent_pos c.colspan, extent_pos c.rowspan⟩

theorem fits_inOrder (values : List Text) : Fits values values (List.range values.length) where
  ordered := List.pairwise_lt_range
  within _ hj := List.mem_range.mp hj
  shown := by
    refine List.forall₂_iff_get.mpr ⟨by rw [List.length_range], fun i hi hi' => ?_⟩
    rw [List.get_eq_getElem, List.get_eq_getElem, List.getElem_range, List.getD_eq_getElem?_getD,
      List.getElem?_eq_getElem hi]
    rfl
  blank j hj := by
    rw [List.mem_range] at hj
    rw [List.getD_eq_getElem?_getD, List.getElem?_eq_none (by omega)]
    rfl

/-- A row is laid out cell by cell: before the first cell there is nothing, and what comes after it
is laid out by itself. -/
theorem fits_expandRow {cells : List Spanned} (hcells : ∀ cell ∈ cells, cell.Extends)
    (slots : List Nat) :
    Fits (cells.map Spanned.value) (expandRow cells slots).1 (columnsIn cells slots) := by
  induction cells generalizing slots with
  | nil =>
    refine ⟨List.Pairwise.nil, by simp [columnsIn], List.Forall₂.nil, fun j _ => ?_⟩
    rw [List.getD_eq_getElem?_getD]
    simp only [expandRow, List.getElem?_map]
    cases (slots.takeWhile (0 < ·))[j]? <;> rfl
  | cons cell cells ih =>
    rw [List.forall_mem_cons] at hcells
    obtain ⟨hcell, hcells⟩ := hcells
    have hcolumns := hcell.1
    have hrest : Fits (cells.map Spanned.value) (afterCell cell cells slots).1
        (columnsIn cells (slots.drop (skipped slots + cell.columns))) := ih hcells _
    have hafter : ∀ j, (expandRow (cell :: cells) slots).1.getD (skipped slots + cell.columns + j) [] =
        (afterCell cell cells slots).1.getD j [] := fun j => by
      rw [Nat.add_assoc, text_after_cell hcell]
    rw [columnsIn]
    constructor
    · rw [List.pairwise_cons, List.forall_mem_map]
      refine ⟨fun j _ => by omega, List.pairwise_map.mpr ?_⟩
      exact hrest.ordered.imp fun h => by omega
    · rw [List.forall_mem_cons, List.forall_mem_map, length_expandRow_cons hcell]
      refine ⟨by omega, fun j hj => ?_⟩
      have := hrest.within j hj
      omega
    · refine .cons text_at_cell (List.forall₂_map_right_iff.mpr ?_)
      exact hrest.shown.imp fun v j h => by rw [hafter, h]
    · intro j hj
      rw [List.mem_cons, not_or] at hj
      rcases Nat.lt_or_ge j (skipped slots) with hbefore | hge
      · exact text_before_cell hbefore
      rcases Nat.lt_or_ge j (skipped slots + cell.columns) with hin | hbehind
      · obtain ⟨i, rfl⟩ := Nat.exists_eq_add_of_le hge
        exact text_in_cell (by omega) (by omega)
      · obtain ⟨i, rfl⟩ := Nat.exists_eq_add_of_le hbehind
        rw [hafter]
        exact hrest.blank i fun hi => hj.2 (List.mem_map_of_mem hi)

theorem Arranged.fits_inOrder (row : Row Cell) : (inOrder row).Fits := by
  have h := Table.fits_inOrder (row.cells.map Cell.value)
  rwa [List.length_map] at h

theorem Arranged.fits_laidOut (row : Row Cell) (slots : List Nat) : (laidOut row slots).Fits := by
  have hcells : ∀ cell ∈ row.cells.map settled, cell.Extends :=
    List.forall_mem_map.mpr fun c _ => settled_extends c
  have h := fits_expandRow hcells slots
  rwa [List.map_map] at h

theorem fits_of_mem_laidOutRows {rows : List (Row Cell)} {slots : List Nat} :
    ∀ a ∈ laidOutRows rows slots, a.Fits := by
  induction rows generalizing slots with
  | nil => simp [laidOutRows]
  | cons row rows ih =>
    exact List.forall_mem_cons.mpr ⟨Arranged.fits_laidOut row slots, ih⟩

/-! ## The rows of a table -/

theorem headerIndex_lt {α : Type} {rows : List (Row α)} (h : rows ≠ []) :
    headerIndex rows < rows.length := by
  unfold headerIndex
  cases hi : rows.findIdx? Row.header with
  | none => exact List.length_pos_of_ne_nil h
  | some i => exact (List.findIdx?_eq_some_iff_findIdx_eq.mp hi).1

/-- The header index depends on the marks of the rows only. -/
theorem headerIndex_congr {α β : Type} {rows : List (Row α)} {rows' : List (Row β)}
    (h : rows.map Row.header = rows'.map Row.header) : headerIndex rows = headerIndex rows' := by
  have hmarks : ∀ {γ : Type} (rs : List (Row γ)),
      rs.findIdx? Row.header = (rs.map Row.header).findIdx? id := fun rs => by
    rw [List.findIdx?_map]
    rfl
  rw [headerIndex, headerIndex, hmarks, hmarks, h]

theorem splitHeader_eq {α : Type} (first : Row α) (rest : List (Row α)) :
    splitHeader first rest = ((first :: rest).getD (headerIndex (first :: rest)) first,
      (first :: rest).eraseIdx (headerIndex (first :: rest))) := by
  rw [splitHeader, headerIndex, List.findIdx?_cons]
  by_cases hfirst : first.header = true
  · rw [if_pos hfirst, if_pos hfirst]
    rfl
  · rw [if_neg hfirst, if_neg hfirst]
    cases hi : rest.findIdx? Row.header with
    | none => rfl
    | some i =>
      have hlt := (List.findIdx?_eq_some_iff_findIdx_eq.mp hi).1
      simp only [Option.map_some, Option.getD_some, List.getElem?_eq_getElem hlt,
        List.getD_cons_succ, List.eraseIdx_cons_succ]
      rw [List.getD_eq_getElem?_getD, List.getElem?_eq_getElem hlt]
      rfl

/-- Taking the header out of rows that are then mapped. -/
theorem map_splitHeader {α β : Type} (f : Row α → β) (first : Row α) (rest : List (Row α)) (d : β) :
    f (splitHeader first rest).1 = ((first :: rest).map f).getD (headerIndex (first :: rest)) d ∧
      (splitHeader first rest).2.map f =
        ((first :: rest).map f).eraseIdx (headerIndex (first :: rest)) := by
  have hlt := headerIndex_lt (List.cons_ne_nil first rest)
  rw [splitHeader_eq]
  constructor
  · rw [List.getD_eq_getElem?_getD, List.getD_eq_getElem?_getD, List.getElem?_map,
      List.getElem?_eq_getElem hlt]
    rfl
  · exact (List.eraseIdx_map ..).symm

section Arrangement

variable {rows : List (Row Cell)}

theorem length_laidOutRows (rows : List (Row Cell)) (slots : List Nat) :
    (laidOutRows rows slots).length = rows.length := by
  induction rows generalizing slots with
  | nil => rfl
  | cons row rows ih => rw [laidOutRows, List.length_cons, ih, List.length_cons]

theorem map_row_laidOutRows (rows : List (Row Cell)) (slots : List Nat) :
    (laidOutRows rows slots).map Arranged.row = rows := by
  induction rows generalizing slots with
  | nil => rfl
  | cons row rows ih => rw [laidOutRows, List.map_cons, ih]; rfl

theorem mode_arrangement (rows : List (Row Cell)) : (arrangement rows).mode = modeOf rows := by
  unfold arrangement
  split <;> simp [*]

/-- The header row and all other rows, in document order. -/
theorem rows_arrangement (hne : rows ≠ []) :
    rows[headerIndex rows]? = some (arrangement rows).header.row ∧
      (arrangement rows).others.map Arranged.row = rows.eraseIdx (headerIndex rows) := by
  have hlt := headerIndex_lt hne
  have hfirst : rows[headerIndex rows]? = some (rows.getD (headerIndex rows) ⟨false, []⟩) := by
    rw [List.getD_eq_getElem?_getD, List.getElem?_eq_getElem hlt]
    rfl
  have hothers : ((rows.eraseIdx (headerIndex rows)).map inOrder).map Arranged.row =
      rows.eraseIdx (headerIndex rows) := by
    rw [List.map_map]
    exact List.map_id _
  unfold arrangement
  split
  · exact ⟨hfirst, hothers⟩
  · have hlaid : headerIndex rows < (laidOutRows rows []).length := by
      rwa [length_laidOutRows]
    constructor
    · have hrow : ((laidOutRows rows []).map Arranged.row)[headerIndex rows]? =
          some (laidOutRows rows [])[headerIndex rows].row := by
        rw [List.getElem?_map, List.getElem?_eq_getElem hlaid]
        rfl
      rw [map_row_laidOutRows] at hrow
      simp only [hrow, List.getD_eq_getElem?_getD, List.getElem?_eq_getElem hlaid,
        Option.getD_some]
    · have hrow := List.eraseIdx_map Arranged.row (laidOutRows rows []) (headerIndex rows)
      rwa [map_row_laidOutRows, eq_comm] at hrow
  · exact ⟨hfirst, hothers⟩

/-- The cells of every row stand in its values. -/
theorem fits_arrangement (hne : rows ≠ []) :
    (arrangement rows).header.Fits ∧ ∀ a ∈ (arrangement rows).others, a.Fits := by
  have hothers : ∀ a ∈ (rows.eraseIdx (headerIndex rows)).map inOrder, a.Fits :=
    List.forall_mem_map.mpr fun row _ => Arranged.fits_inOrder row
  unfold arrangement
  split
  · exact ⟨Arranged.fits_inOrder _, hothers⟩
  · have hlaid : headerIndex rows < (laidOutRows rows []).length := by
      rw [length_laidOutRows]
      exact headerIndex_lt hne
    constructor
    · simp only [List.getD_eq_getElem?_getD, List.getElem?_eq_getElem hlaid, Option.getD_some]
      exact fits_of_mem_laidOutRows _ (List.getElem_mem hlaid)
    · exact fun a ha => fits_of_mem_laidOutRows a (List.mem_of_mem_eraseIdx ha)
  · exact ⟨Arranged.fits_laidOut _ [], hothers⟩

end Arrangement

/-! ## Rendered tables -/

theorem value_of_ok {c : Cell} {v : Text} (h : c.content.outcome = .ok v) : c.value = v := by
  rw [Cell.value, h]

theorem extent_of_ok {raw : Option Text} {n : Nat} (h : span raw = .ok n) : extent raw = n := by
  rw [extent, h]

/-- A row with each cell beside its value. -/
def withValues (row : Row Cell) : Row (Cell × Text) :=
  ⟨row.header, row.cells.map fun c => (c, c.value)⟩

theorem withValues_of_valued {row : Row Cell} {r : Row (Cell × Text)}
    (h : (valued row).outcome = .ok r) : withValues row = r := by
  rw [valued, bind_outcome_eq_ok_iff] at h
  obtain ⟨values, hvalues, h⟩ := h
  have hmap := sequence_map_eq (g := Cell.value) hvalues fun c v hv => value_of_ok hv
  have hzip := List.zip_map' (f := id) (g := Cell.value) (l := row.cells)
  rw [List.map_id] at hzip
  cases h
  rw [hmap, hzip]
  rfl

def settledRow (row : Row Cell) : Row Spanned := ⟨row.header, row.cells.map settled⟩

theorem settled_of_spanned {c : Cell} {s : Spanned} (h : (spanned c).outcome = .ok s) :
    settled c = s := by
  simp only [spanned, bind_outcome_eq_ok_iff, ofSized_outcome_eq_ok_iff] at h
  obtain ⟨value, hvalue, columns, hcolumns, rows, hrows, h⟩ := h
  cases h
  rw [settled, value_of_ok hvalue, extent_of_ok hcolumns, extent_of_ok hrows]

theorem settledRow_of_spannedRow {row : Row Cell} {r : Row Spanned}
    (h : (spannedRow row).outcome = .ok r) : settledRow row = r := by
  rw [spannedRow, bind_outcome_eq_ok_iff] at h
  obtain ⟨cells, hcells, h⟩ := h
  cases h
  rw [settledRow, sequence_map_eq (g := settled) hcells fun c s hs => settled_of_spanned hs]

/-- The header with an empty value for each further column is a row that is laid out alone. -/
theorem widenedHeader_eq {cells : List Cell} {header : List Text}
    (h : (widenedHeader (cells.map fun c => (c, c.value))).outcome = .ok header) :
    header = (expandRow (cells.map settled) []).1 := by
  rw [widenedHeader, bind_outcome_eq_ok_iff] at h
  obtain ⟨columns, hcolumns, h⟩ := h
  have hmap := sequence_map_eq (g := fun c : Cell × Text => extent c.1.colspan) hcolumns
    fun c n hn => extent_of_ok (span_of_widening (ofSized_outcome_eq_ok_iff.mp hn))
  rw [List.map_map] at hmap
  cases h
  rw [hmap]
  clear hmap hcolumns
  induction cells with
  | nil => rfl
  | cons c cells ih =>
    rw [List.map_cons, List.map_cons, List.map_cons, List.zipWith_cons_cons, List.flatten_cons, ih]
    simp [expandRow, settled]

theorem map_cells_expandRows (rows : List (Row Cell)) (slots : List Nat) :
    (expandRows (rows.map settledRow) slots).1.map Row.cells =
      (laidOutRows rows slots).map Arranged.values := by
  induction rows generalizing slots with
  | nil => rfl
  | cons row rows ih =>
    rw [List.map_cons, expandRows, laidOutRows, List.map_cons, List.map_cons, ← ih]
    rfl

theorem map_header_expandRows (rows : List (Row Spanned)) (slots : List Nat) :
    (expandRows rows slots).1.map Row.header = rows.map Row.header := by
  induction rows generalizing slots with
  | nil => rfl
  | cons row rows ih => rw [expandRows, List.map_cons, List.map_cons, ih]

section Modes

variable {rows : List (Row Cell)} {t : Text}

theorem getD_map_of_ne_nil {β : Type} (f : Row Cell → β) (hne : rows ≠ []) (d : β) :
    (rows.map f).getD (headerIndex rows) d = f (rows.getD (headerIndex rows) ⟨false, []⟩) := by
  rw [List.getD_eq_getElem?_getD, List.getD_eq_getElem?_getD, List.getElem?_map,
    List.getElem?_eq_getElem (headerIndex_lt hne)]
  rfl

theorem renderPlain_eq (h : (renderPlain rows).outcome = .ok t) (hne : rows ≠ []) :
    t = plain (inOrder (rows.getD (headerIndex rows) ⟨false, []⟩)).values
      (((rows.eraseIdx (headerIndex rows)).map inOrder).map Arranged.values) := by
  rw [renderPlain, bind_outcome_eq_ok_iff] at h
  obtain ⟨vs, hvs, h⟩ := h
  have hmap := sequence_map_eq (g := withValues) hvs fun _ _ hr => withValues_of_valued hr
  obtain ⟨row, rest, rfl⟩ := List.exists_cons_of_ne_nil hne
  have hindex : headerIndex ((row :: rest).map withValues) = headerIndex (row :: rest) :=
    headerIndex_congr (List.map_map ..)
  rw [List.map_cons] at hmap hindex
  subst hmap
  obtain ⟨hheader, hothers⟩ := map_splitHeader valuesOf (withValues row) (rest.map withValues) []
  rw [hindex, ← List.map_cons, List.map_map] at hheader hothers
  have ht : plain _ _ = t := Except.ok.inj h
  rw [← ht, hheader, hothers, getD_map_of_ne_nil _ hne, List.eraseIdx_map, List.map_map]
  have hvalues : ∀ r, valuesOf (withValues r) = (inOrder r).values := fun r => by
    rw [valuesOf, withValues, List.map_map]
    rfl
  simp only [Function.comp_def, hvalues]

theorem renderExpanded_eq (h : (renderExpanded rows).outcome = .ok t) (hne : rows ≠ []) :
    let all := (laidOutRows rows []).map Arranged.values
    let header := all.getD (headerIndex rows) []
    let others := all.eraseIdx (headerIndex rows)
    let n := columnCount header others
    t = stacked (padRow n header) (others.map (padRow n)) := by
  rw [renderExpanded, bind_outcome_eq_ok_iff] at h
  obtain ⟨vs, hvs, h⟩ := h
  have hmap := sequence_map_eq (g := settledRow) hvs fun _ _ hr => settledRow_of_spannedRow hr
  subst hmap
  have hcells := map_cells_expandRows rows []
  have hindex : headerIndex (expandRows (rows.map settledRow) []).1 = headerIndex rows :=
    headerIndex_congr ((map_header_expandRows _ _).trans (List.map_map ..))
  have hlength := length_expandRows (rows.map settledRow) []
  cases hexpanded : (expandRows (rows.map settledRow) []).1 with
  | nil =>
    rw [hexpanded, List.length_map] at hlength
    exact absurd (List.length_eq_zero_iff.mp hlength.symm) hne
  | cons first rest =>
    rw [hexpanded] at h hcells hindex
    obtain ⟨hheader, hothers⟩ := map_splitHeader Row.cells first rest []
    rw [hindex, hcells] at hheader hothers
    have ht : stacked _ _ = t := Except.ok.inj h
    rw [← ht]
    intro all header others n
    have hn : columnCount (splitHeader first rest).1.cells
        ((splitHeader first rest).2.map Row.cells) = n := by rw [hheader, hothers]
    rw [hn, hheader, show others = _ from hothers.symm, List.map_map]
    rfl

theorem renderRowByRow_eq (h : (renderRowByRow rows).outcome = .ok t) (hne : rows ≠ []) :
    let header := (laidOut (rows.getD (headerIndex rows) ⟨false, []⟩) []).values
    let others := ((rows.eraseIdx (headerIndex rows)).map inOrder).map Arranged.values
    t = stacked (padRow (columnCount header others) header) others := by
  rw [renderRowByRow, bind_outcome_eq_ok_iff] at h
  obtain ⟨vs, hvs, h⟩ := h
  have hmap := sequence_map_eq (g := withValues) hvs fun _ _ hr => withValues_of_valued hr
  obtain ⟨row, rest, rfl⟩ := List.exists_cons_of_ne_nil hne
  have hindex : headerIndex ((row :: rest).map withValues) = headerIndex (row :: rest) :=
    headerIndex_congr (List.map_map ..)
  rw [List.map_cons] at hmap hindex
  subst hmap
  obtain ⟨hheader, -⟩ := map_splitHeader Row.cells (withValues row) (rest.map withValues) []
  obtain ⟨-, hothers⟩ := map_splitHeader valuesOf (withValues row) (rest.map withValues) []
  rw [hindex, ← List.map_cons, List.map_map] at hheader hothers
  rw [getD_map_of_ne_nil _ hne] at hheader
  have hvalues : ∀ r, valuesOf (withValues r) = (inOrder r).values := fun r => by
    rw [valuesOf, withValues, List.map_map]
    rfl
  simp only [bind_outcome_eq_ok_iff, hheader, hothers] at h
  obtain ⟨header, hwidened, h⟩ := h
  have hheader' := widenedHeader_eq hwidened
  have ht : stacked _ _ = t := Except.ok.inj h
  rw [← ht]
  intro header' others
  have hothers' : ((row :: rest).map (valuesOf ∘ withValues)).eraseIdx
      (headerIndex (row :: rest)) = others := by
    rw [List.eraseIdx_map]
    simp only [Function.comp_def, hvalues, others, List.map_map]
  rw [hothers', hheader']
  rfl

/-- A table that is rendered is the text of its arrangement. -/
theorem renderRows_eq (h : (renderRows rows).outcome = .ok t) (hne : rows ≠ []) :
    t = unlines (arrangement rows).sheet.lines := by
  have hnote : ∀ (n : Notice) (x : Traced Text), ((note n).bind fun _ => x).outcome = x.outcome :=
    fun n x => rfl
  rw [renderRows] at h
  rw [arrangement, modeOf]
  split at h
  · rename_i hrowspan
    rw [hnote] at h
    rw [if_pos hrowspan, renderExpanded_eq h hne, stacked_eq, List.eraseIdx_map]
    have hheader : ((laidOutRows rows []).map Arranged.values).getD (headerIndex rows) [] =
        ((laidOutRows rows []).getD (headerIndex rows)
          ⟨rows.getD (headerIndex rows) ⟨false, []⟩, [], []⟩).values := by
      rw [List.getD_eq_getElem?_getD, List.getD_eq_getElem?_getD, List.getElem?_map]
      cases (laidOutRows rows [])[headerIndex rows]? <;> rfl
    rw [hheader]
    rfl
  · rename_i hrowspan
    rw [if_neg hrowspan]
    split at h
    · rename_i hcolspan
      rw [hnote] at h
      rw [if_pos hcolspan, renderRowByRow_eq h hne, stacked_eq]
      rfl
    · rename_i hcolspan
      rw [if_neg hcolspan, renderPlain_eq h hne, plain_eq]
      rfl

theorem render_eq {caption : Traced Text} (h : (render rows caption).outcome = .ok t)
    (hne : rows ≠ []) : ∃ c, caption.outcome = .ok c ∧
      t = captioned c (unlines (arrangement rows).sheet.lines) := by
  rw [render, if_neg (by simpa using hne), bind_outcome_eq_ok_iff] at h
  obtain ⟨table, htable, h⟩ := h
  rw [bind_outcome_eq_ok_iff] at h
  obtain ⟨c, hc, h⟩ := h
  cases h
  rw [renderRows_eq htable hne]
  exact ⟨c, hc, rfl⟩

end Modes

end Table

end Hypermark
