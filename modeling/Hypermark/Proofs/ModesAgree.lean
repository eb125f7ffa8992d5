import Hypermark.Proofs.RowsRead
import Hypermark.Proofs.TableSuccess

/-!
# Where the modes of a table agree

An attribute that asks for one row or one column changes nothing in the grid, but unless it spells
just that number it still decides in which mode the table is set.  On rows of equal length with
values of one line the modes come to the same: every layout then shows a row by one line, no column
is padded, and a row that is not blank is never filled up.

* `stacked_eq_plain`: the two layouts of rows that take a line each.
* `expandRow_of_single`, `laidOutRows_of_single`: cells that span one column and one row stay in order.
* `modes_agree`: a table whose cells span one row and column is the same in every mode.
-/

namespace Hypermark.Table

open Text Markdown Traced

/-! ## Values of one line -/

/-- There is no line break in the value. -/
def OneLine (v : Text) : Prop := '\n' ∉ v ∧ '\r' ∉ v

/-- The values of a row that is shown by one line and not blank. -/
structure FillsLine (values : List Text) : Prop where
  oneLine : ∀ v ∈ values, OneLine v
  shows : ∃ v ∈ values, allBlank v = false

theorem isEmpty_escapeCellLine (v : Text) : (escapeCellLine v).isEmpty = allBlank v := by
  have hguarded := (guarded_escapePipesFrom 0 0 v).trim.isEmpty_eq
  rw [escapeCellLine, ← hguarded, Bool.eq_iff_iff, List.isEmpty_iff, trim_eq_nil_iff]

theorem allBlank_escapeCellLine (v : Text) : allBlank (escapeCellLine v) = allBlank v := by
  rw [← isEmpty_escapeCellLine v, Bool.eq_iff_iff, ← trim_eq_nil_iff, trim_escapeCellLine,
    List.isEmpty_iff]

namespace OneLine

variable {v : Text} (h : OneLine v)

theorem nil : OneLine [] := ⟨List.not_mem_nil, List.not_mem_nil⟩

include h

theorem escaped : OneLine (escapeCellLine v) :=
  ⟨fun hmem => h.1 (mem_of_mem_escapeCellLine hmem (by decide)),
    fun hmem => h.2 (mem_of_mem_escapeCellLine hmem (by decide))⟩

theorem lines_unifyBreaks : lines (unifyBreaks v) = [v] := by
  rw [unifyBreaks_of_no_return h.2, lines_of_no_feed h.1]

theorem cellLines : cellLines v = [escapeCellLine v] := by
  unfold Table.cellLines
  rw [h.lines_unifyBreaks, List.map_singleton]
  by_cases hblank : allBlank v = true
  · have hempty : escapeCellLine v = [] := by
      rw [← List.isEmpty_iff, isEmpty_escapeCellLine, hblank]
    rw [hempty]
    rfl
  · rw [List.filter_cons_of_pos (by rw [allBlank_escapeCellLine]; simpa using hblank)]
    rfl

end OneLine

/-! ## Rows of one line -/

theorem foldl_max_of_one {ns : List Nat} (hne : ns ≠ []) (h : ∀ n ∈ ns, n = 1) :
    ns.foldl max 0 = 1 := by
  obtain ⟨n, ns, rfl⟩ := List.exists_cons_of_ne_nil hne
  have hle : (n :: ns).foldl max 0 ≤ 1 :=
    (foldl_max_le_iff _ _ _).mpr ⟨by omega, fun m hm => by have := h m hm; omega⟩
  have hge : n ≤ (n :: ns).foldl max 0 := le_foldl_max (List.mem_cons_self ..)
  have hn := h n (List.mem_cons_self ..)
  omega

theorem cellAt_singleton {c : Column} (h : c.padded = false) (e : Text) : cellAt 0 [e] c = e := by
  unfold cellAt
  rw [h]
  rfl

theorem zipWith_cellAt {values : List Text} {columns : List Column}
    (hlength : columns.length = values.length) (hcolumns : ∀ c ∈ columns, c.padded = false) :
    List.zipWith (cellAt 0) (values.map fun v => [escapeCellLine v]) columns =
      values.map escapeCellLine := by
  induction values generalizing columns with
  | nil => rfl
  | cons v values ih =>
    obtain ⟨c, columns, rfl⟩ :=
      List.exists_cons_of_ne_nil (List.ne_nil_of_length_eq_add_one hlength)
    rw [List.forall_mem_cons] at hcolumns
    rw [List.map_cons, List.zipWith_cons_cons, List.map_cons, cellAt_singleton hcolumns.1,
      ih (Nat.succ.inj hlength) hcolumns.2]

theorem stackedSegment_singleton (e : Text) : stackedSegment 0 [e] = e := by
  unfold stackedSegment
  show (if e.isEmpty then [] else justify (widest [e]) e) = e
  split
  · rename_i hempty
    exact (List.isEmpty_iff.mp hempty).symm
  · simp [justify, widest, List.rightpad]

namespace FillsLine

variable {values : List Text} (h : FillsLine values)
include h

theorem ne_nil : values ≠ [] := by
  obtain ⟨v, hv, -⟩ := h.shows
  exact List.ne_nil_of_mem hv

theorem not_blank : (values.map escapeCellLine).all allBlank = false := by
  obtain ⟨v, hv, hblank⟩ := h.shows
  rw [List.all_eq_false]
  exact ⟨escapeCellLine v, List.mem_map_of_mem hv, by rw [allBlank_escapeCellLine, hblank]; decide⟩

theorem map_cellLines : values.map cellLines = values.map fun v => [escapeCellLine v] :=
  List.map_congr_left fun v hv => (h.oneLine v hv).cellLines

theorem map_segments : (values.map fun v => lines (unifyBreaks (escapeCellLine v))) =
    values.map fun v => [escapeCellLine v] :=
  List.map_congr_left fun v hv => (h.oneLine v hv).escaped.lines_unifyBreaks

theorem height :
    ((values.map fun v => [escapeCellLine v]).map List.length).foldl max 0 = 1 :=
  foldl_max_of_one (by simpa using h.ne_nil) (by simp)

/-- In columns that are not padded the row is one line of its escaped values. -/
theorem plainGroup {columns : List Column} (hlength : columns.length = values.length)
    (hcolumns : ∀ c ∈ columns, c.padded = false) :
    plainGroup columns (values.map cellLines) = [values.map escapeCellLine] := by
  have hrows : plainRows columns (values.map cellLines) = [values.map escapeCellLine] := by
    unfold plainRows
    rw [h.map_cellLines, h.height, ← zipWith_cellAt hlength hcolumns]
    rfl
  unfold Table.plainGroup
  rw [hrows, List.filter_cons_of_pos (by simp [h.not_blank])]
  rfl

theorem filled_escaped : filled (values.map escapeCellLine) = values.map escapeCellLine := by
  have hblank := h.not_blank
  unfold filled
  split
  · rename_i hnil
    rw [hnil] at hblank
    cases hblank
  · rename_i hnil
    rw [hnil] at hblank
    cases hblank
  · rfl

/-- So it is in the stacked layout. -/
theorem stackedGroup : (stackedGroup values).map filled = [values.map escapeCellLine] := by
  rw [stackedGroup_of_ne_nil h.ne_nil, h.map_segments, h.height]
  show [filled ((values.map fun v => [escapeCellLine v]).map (stackedSegment 0))] = _
  rw [List.map_map]
  simp only [Function.comp_def, stackedSegment_singleton, h.filled_escaped]

end FillsLine

/-! ## Tables of such rows -/

section Even

variable {header : List Text} {others : List (List Text)}
  (hlength : ∀ values ∈ others, values.length = header.length)
  (hfills : ∀ values ∈ header :: others, FillsLine values)
include hlength hfills

theorem columnCount_of_even : columnCount header others = header.length := by
  have hpos := List.length_pos_of_ne_nil (hfills header (List.mem_cons_self ..)).ne_nil
  have hle : (others.map List.length).foldl max header.length ≤ header.length :=
    (foldl_max_le_iff _ _ _).mpr
      ⟨Nat.le_refl _, List.forall_mem_map.mpr fun values hv => Nat.le_of_eq (hlength values hv)⟩
  have hge := ((foldl_max_le_iff (others.map List.length) header.length _).mp (Nat.le_refl _)).1
  unfold columnCount
  omega

theorem padRow_of_even {values : List Text} (hvalues : values ∈ header :: others) :
    padRow (columnCount header others) values = values := by
  have hlen : values.length = header.length := by
    rcases List.mem_cons.mp hvalues with rfl | hmem
    · rfl
    · exact hlength values hmem
  rw [columnCount_of_even hlength hfills, padRow_eq (Nat.le_of_eq hlen), hlen, Nat.sub_self]
  exact List.append_nil values

/-- No column is padded, and each is as wide as its header. -/
theorem plainColumns_of_even : plainColumns header others =
    header.map fun v => ⟨max (widest (cellLines v)) 1, false⟩ := by
  have hcount := columnCount_of_even hlength hfills
  have hle : ∀ values ∈ header :: others, values.length ≤ columnCount header others := by
    rw [List.forall_mem_cons, hcount]
    exact ⟨Nat.le_refl _, fun values hv => Nat.le_of_eq (hlength values hv)⟩
  have hcell : ∀ values ∈ header :: others, ∀ j, OneLine (values.getD j []) := by
    intro values hvalues j
    rw [List.getD_eq_getElem?_getD]
    cases hj : values[j]? with
    | none => exact .nil
    | some v => exact (hfills values hvalues).oneLine v (List.mem_of_getElem? hj)
  refine List.ext_getElem ?_ fun j hj hj' => ?_
  · rw [Arrangement.length_plainColumns, hcount, List.length_map]
  · rw [plainColumns_getElem hle hj, List.getElem_map]
    have hsingle : ((header :: others).map fun values => cellLines (values.getD j [])).any
        (1 < ·.length) = false := by
      rw [List.any_eq_false, List.forall_mem_map]
      intro values hvalues
      rw [(hcell values hvalues j).cellLines]
      exact Bool.false_ne_true
    rw [List.length_map] at hj'
    unfold columnOf
    simp only [hsingle, Bool.false_eq_true, if_false]
    rw [List.map_cons, List.headD_cons, List.getD_eq_getElem?_getD, List.getElem?_eq_getElem hj',
      Option.getD_some]

/-- The two layouts agree on rows of equal length that take a line each. -/
theorem stacked_eq_plain : stacked header others = plain header others := by
  have hcolumns := plainColumns_of_even hlength hfills
  have hgroup : ∀ values ∈ header :: others,
      plainGroup (plainColumns header others)
          ((padRow (columnCount header others) values).map cellLines) =
        (stackedGroup values).map filled := by
    intro values hvalues
    have hlen : (plainColumns header others).length = values.length := by
      rw [Arrangement.length_plainColumns, ← length_padRow (columnCount header others) values,
        padRow_of_even hlength hfills hvalues]
    have hpadded : ∀ c ∈ plainColumns header others, c.padded = false := by
      rw [hcolumns]
      exact List.forall_mem_map.mpr fun v _ => rfl
    rw [padRow_of_even hlength hfills hvalues, (hfills values hvalues).plainGroup hlen hpadded,
      (hfills values hvalues).stackedGroup]
  rw [List.forall_mem_cons] at hgroup
  have hdashes : (plainColumns header others).map (fun c => max (c.width + 2) 3) =
      header.map fun v => max (max (widest (cellLines v)) 1 + 2) 3 := by
    rw [hcolumns, List.map_map]
    rfl
  rw [stacked_eq, plain_eq, plainSheet, stackedSheet, hgroup.1, hdashes,
    List.map_congr_left hgroup.2]

end Even

/-! ## Cells that span one row and column -/

/-- The attribute asks for one row or column: it is absent, no number, or a number below two. -/
def AsksForOne (raw : Option Text) : Prop := ∃ k, readOptional raw = .ok k ∧ ∀ n ∈ k, n ≤ 1

theorem span_eq_one_iff {raw : Option Text} : span raw = .ok 1 ↔ AsksForOne raw := by
  unfold span AsksForOne
  cases readOptional raw with
  | error size => simp [Except.map]
  | ok k =>
    cases k with
    | none => simp [Except.map]
    | some n =>
      have hmax : max n.toNat 1 = 1 ↔ n ≤ 1 := by omega
      simp [Except.map, hmax]

section Single

/-- Cells that span one column and one row are laid out one after the other, and leave nothing to
the rows below. -/
theorem expandRow_of_single {cells : List Spanned}
    (h : ∀ cell ∈ cells, cell.columns = 1 ∧ cell.rows = 1) (slots : List Nat)
    (hslots : ∀ k ∈ slots, k = 0) :
    (expandRow cells slots).1 = cells.map Spanned.value ∧
      ∀ k ∈ (expandRow cells slots).2, k = 0 := by
  have hcovered : ∀ {slots : List Nat}, (∀ k ∈ slots, k = 0) →
      slots.takeWhile (0 < ·) = [] := by
    intro slots hslots
    cases slots with
    | nil => rfl
    | cons k slots => rw [List.takeWhile_cons_of_neg (by simp [hslots k (List.mem_cons_self ..)])]
  induction cells generalizing slots with
  | nil =>
    simp only [expandRow, hcovered hslots, List.map_nil, List.length_nil, List.drop_zero,
      List.nil_append]
    exact ⟨trivial, hslots⟩
  | cons cell cells ih =>
    rw [List.forall_mem_cons] at h
    obtain ⟨⟨hcolumns, hrows⟩, hcells⟩ := h
    obtain ⟨hvalues, hnext⟩ := ih hcells (slots.drop 1) fun k hk =>
      hslots k (List.mem_of_mem_drop hk)
    simp only [expandRow, hcovered hslots, hcolumns, hrows, List.map_nil, List.length_nil,
      List.drop_zero, List.nil_append, hvalues]
    refine ⟨rfl, fun k hk => ?_⟩
    rcases List.mem_append.mp hk with hk | hk
    · exact List.eq_of_mem_replicate hk
    · exact hnext k hk

variable {rows : List (Row Cell)}
  (h : ∀ row ∈ rows, ∀ c ∈ row.cells, AsksForOne c.colspan ∧ AsksForOne c.rowspan)
include h

theorem settled_of_single {row : Row Cell} (hrow : row ∈ rows) :
    ∀ cell ∈ row.cells.map settled, cell.columns = 1 ∧ cell.rows = 1 := by
  refine List.forall_mem_map.mpr fun c hc => ?_
  obtain ⟨hcolumns, hrows⟩ := h row hrow c hc
  exact ⟨extent_of_ok (span_eq_one_iff.mpr hcolumns), extent_of_ok (span_eq_one_iff.mpr hrows)⟩

theorem laidOut_of_single {row : Row Cell} (hrow : row ∈ rows) (slots : List Nat)
    (hslots : ∀ k ∈ slots, k = 0) : (laidOut row slots).values = (inOrder row).values := by
  show (expandRow (row.cells.map settled) slots).1 = row.cells.map Cell.value
  rw [(expandRow_of_single (settled_of_single h hrow) slots hslots).1, List.map_map]
  rfl

/-- The grid of such rows is the rows. -/
theorem laidOutRows_of_single (slots : List Nat) (hslots : ∀ k ∈ slots, k = 0) :
    (laidOutRows rows slots).map Arranged.values =
      (rows.map inOrder).map Arranged.values := by
  induction rows generalizing slots with
  | nil => rfl
  | cons row rows ih =>
    have hnext := (expandRow_of_single (settled_of_single h (List.mem_cons_self ..)) slots hslots).2
    rw [laidOutRows, List.map_cons, List.map_cons, List.map_cons,
      laidOut_of_single h (List.mem_cons_self ..) slots hslots]
    exact congrArg _ (ih (fun r hr => h r (List.mem_cons_of_mem _ hr)) _ hnext)

end Single

/-! ## The modes -/

theorem header_mem {α : Type} {rows : List (Row α)} (hne : rows ≠ []) (d : Row α) :
    rows.getD (headerIndex rows) d ∈ rows := by
  rw [List.getD_eq_getElem?_getD, List.getElem?_eq_getElem (headerIndex_lt hne)]
  exact List.getElem_mem _

/-- Rows of `n` cells each.  Every cell has a value of one line and spans one row and one column, and
no row is blank. -/
structure Even (n : Nat) (rows : List (Row Cell)) : Prop where
  length : ∀ row ∈ rows, row.cells.length = n
  oneLine : ∀ row ∈ rows, ∀ c ∈ row.cells, ∃ v, c.content.outcome = .ok v ∧ OneLine v
  shows : ∀ row ∈ rows, ∃ c ∈ row.cells, allBlank c.value = false
  single : ∀ row ∈ rows, ∀ c ∈ row.cells, AsksForOne c.colspan ∧ AsksForOne c.rowspan

namespace Even

variable {n : Nat} {rows : List (Row Cell)} (h : Even n rows)
include h

theorem fillsLine {row : Row Cell} (hrow : row ∈ rows) : FillsLine (inOrder row).values where
  oneLine := by
    refine List.forall_mem_map.mpr fun c hc => ?_
    obtain ⟨v, hv, hline⟩ := h.oneLine row hrow c hc
    rwa [value_of_ok hv]
  shows := by
    obtain ⟨c, hc, hblank⟩ := h.shows row hrow
    exact ⟨c.value, List.mem_map_of_mem hc, hblank⟩

theorem succeeds : (renderPlain rows).Succeeds ∧ (renderExpanded rows).Succeeds ∧
    (renderRowByRow rows).Succeeds := by
  have hcontent : ∀ row ∈ rows, ∀ c ∈ row.cells, c.content.Succeeds := by
    intro row hrow c hc
    obtain ⟨v, hv, -⟩ := h.oneLine row hrow c hc
    exact ⟨v, hv⟩
  have hreadable : ∀ row ∈ rows, ∀ c ∈ row.cells,
      Render.Readable c.colspan ∧ Render.Readable c.rowspan := by
    intro row hrow c hc
    obtain ⟨hcolumns, hrows⟩ := h.single row hrow c hc
    exact ⟨Render.exists_span_iff.mp ⟨1, span_eq_one_iff.mpr hcolumns⟩,
      Render.exists_span_iff.mp ⟨1, span_eq_one_iff.mpr hrows⟩⟩
  have hwidens : ∀ row ∈ rows, ∀ c ∈ row.cells, Render.Widens c.colspan := by
    intro row hrow c hc
    have hone : widening c.colspan = .ok 1 := by
      rw [widening, span_eq_one_iff.mpr (h.single row hrow c hc).1]
      exact Render.repeated_eq_ok_iff.mpr ⟨Nat.zero_le _, rfl⟩
    exact Render.exists_widening_iff.mp ⟨1, hone⟩
  refine ⟨Render.renderPlain_succeeds_iff.mpr hcontent, Render.renderExpanded_succeeds_iff.mpr
    fun row hrow c hc => ⟨hcontent row hrow c hc, hreadable row hrow c hc⟩,
    Render.renderRowByRow_succeeds_iff.mpr ⟨hcontent, fun c hc => ?_⟩⟩
  cases rows with
  | nil => cases hc
  | cons first rest =>
    have hc : c ∈ (splitHeader first rest).1.cells := hc
    rw [splitHeader_eq] at hc
    exact hwidens _ (header_mem (List.cons_ne_nil first rest) first) c hc

/-- The header and the other rows, their values in order, can be set in either layout. -/
theorem stacked_eq_plain (hne : rows ≠ []) :
    let header := (inOrder (rows.getD (headerIndex rows) ⟨false, []⟩)).values
    let others := ((rows.eraseIdx (headerIndex rows)).map inOrder).map Arranged.values
    stacked (padRow (columnCount header others) header)
        (others.map (padRow (columnCount header others))) = plain header others ∧
      stacked (padRow (columnCount header others) header) others = plain header others := by
  intro header others
  have hheader := header_mem hne ⟨false, []⟩
  have hmem : ∀ row ∈ rows.eraseIdx (headerIndex rows), row ∈ rows := fun row hrow =>
    List.mem_of_mem_eraseIdx hrow
  have hwidth : ∀ {row : Row Cell}, row ∈ rows → (inOrder row).values.length = n := by
    intro row hrow
    exact (List.length_map ..).trans (h.length row hrow)
  have hlength : ∀ values ∈ others, values.length = header.length := by
    rw [List.forall_mem_map, List.forall_mem_map]
    exact fun row hrow => (hwidth (hmem row hrow)).trans (hwidth hheader).symm
  have hfills : ∀ values ∈ header :: others, FillsLine values := by
    rw [List.forall_mem_cons, List.forall_mem_map, List.forall_mem_map]
    exact ⟨h.fillsLine hheader, fun row hrow => h.fillsLine (hmem row hrow)⟩
  have hpad : others.map (padRow (columnCount header others)) = others := by
    conv => rhs; rw [← List.map_id others]
    exact List.map_congr_left fun values hvalues =>
      padRow_of_even hlength hfills (List.mem_cons_of_mem _ hvalues)
  rw [hpad, padRow_of_even hlength hfills (List.mem_cons_self ..),
    Table.stacked_eq_plain hlength hfills]
  exact ⟨rfl, rfl⟩

end Even

/-- A table with rows of equal length, values of one line and no blank row, whose cells span one row
and one column, comes out the same in every mode, so it does not matter for which one the attributes
ask. -/
theorem modes_agree {n : Nat} {rows : List (Row Cell)} (h : Even n rows) :
    ∃ t, (renderPlain rows).outcome = .ok t ∧ (renderExpanded rows).outcome = .ok t ∧
      (renderRowByRow rows).outcome = .ok t ∧ (renderRows rows).outcome = .ok t := by
  obtain ⟨⟨t, hplain⟩, ⟨u, hexpanded⟩, ⟨v, hrowByRow⟩⟩ := h.succeeds
  have hsame : u = t ∧ v = t := by
    by_cases hne : rows = []
    · subst hne
      have ht : [] = t := Except.ok.inj hplain
      have hu : [] = u := Except.ok.inj hexpanded
      have hv : [] = v := Except.ok.inj hrowByRow
      rw [← ht, ← hu, ← hv]
      exact ⟨rfl, rfl⟩
    · obtain ⟨hpadded, hbare⟩ := h.stacked_eq_plain hne
      have hgrid := laidOutRows_of_single h.single [] (List.forall_mem_nil _)
      have hwidened := laidOut_of_single h.single (header_mem hne ⟨false, []⟩) []
        (List.forall_mem_nil _)
      have hheader : ((laidOutRows rows []).map Arranged.values).getD (headerIndex rows) [] =
          (inOrder (rows.getD (headerIndex rows) ⟨false, []⟩)).values := by
        rw [hgrid, List.map_map]
        exact getD_map_of_ne_nil _ hne []
      have hothers : ((laidOutRows rows []).map Arranged.values).eraseIdx (headerIndex rows) =
          ((rows.eraseIdx (headerIndex rows)).map inOrder).map Arranged.values := by
        rw [hgrid, List.eraseIdx_map, List.eraseIdx_map]
      constructor
      · rw [renderExpanded_eq hexpanded hne, renderPlain_eq hplain hne, ← hpadded]
        simp only [hheader, hothers]
      · rw [renderRowByRow_eq hrowByRow hne, renderPlain_eq hplain hne, ← hbare, hwidened]
  rw [hsame.1] at hexpanded
  rw [hsame.2] at hrowByRow
  refine ⟨t, hplain, hexpanded, hrowByRow, ?_⟩
  unfold renderRows
  dsimp only
  split
  · exact hexpanded
  split
  · exact hrowByRow
  · exact hplain

/-- A header with a bar in it over a row with an empty cell.  The attributes are a zero, a word, a
negative number, nothing and a one. -/
def invalidSpans : List (Row Cell) := [
  ⟨true, [⟨none, some "0".toList, Traced.pure "a|b".toList⟩,
    ⟨some "x".toList, none, Traced.pure "c".toList⟩]⟩,
  ⟨false, [⟨some "-2".toList, some [], Traced.pure []⟩,
    ⟨none, some "1".toList, Traced.pure "d".toList⟩]⟩]

theorem even_invalidSpans : Even 2 invalidSpans where
  length := by decide
  oneLine := by
    simp only [invalidSpans, List.forall_mem_cons]
    exact ⟨⟨⟨_, rfl, by decide, by decide⟩, ⟨_, rfl, by decide, by decide⟩, nofun⟩,
      ⟨⟨_, rfl, .nil⟩, ⟨_, rfl, by decide, by decide⟩, nofun⟩, nofun⟩
  shows := by decide
  single := by
    have hone : AsksForOne none ∧ AsksForOne (some "0".toList) ∧ AsksForOne (some "x".toList) ∧
        AsksForOne (some "-2".toList) ∧ AsksForOne (some []) ∧ AsksForOne (some "1".toList) :=
      ⟨span_eq_one_iff.mp rfl, span_eq_one_iff.mp rfl, span_eq_one_iff.mp rfl,
        span_eq_one_iff.mp rfl, span_eq_one_iff.mp rfl, span_eq_one_iff.mp rfl⟩
    obtain ⟨habsent, hzero, hword, hnegative, hempty, hone⟩ := hone
    simp only [invalidSpans, List.forall_mem_cons]
    exact ⟨⟨⟨habsent, hzero⟩, ⟨hword, habsent⟩, nofun⟩,
      ⟨⟨hnegative, hempty⟩, ⟨habsent, hone⟩, nofun⟩, nofun⟩

theorem invalid_spans_agree : Even 2 invalidSpans ∧ modeOf invalidSpans = .expanded ∧
    (renderRows invalidSpans).outcome =
      .ok "| a\\|b | c |\n|------|---|\n|  | d |".toList ∧
    ∃ t, (renderPlain invalidSpans).outcome = .ok t ∧
      (renderExpanded invalidSpans).outcome = .ok t ∧
      (renderRowByRow invalidSpans).outcome = .ok t ∧ (renderRows invalidSpans).outcome = .ok t :=
  ⟨even_invalidSpans, rfl, rfl, modes_agree even_invalidSpans⟩

end Hypermark.Table
