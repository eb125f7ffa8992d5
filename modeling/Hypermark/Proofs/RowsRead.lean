import Hypermark.Proofs.TableShape

/-!
# Reading the rows of a table back

The lines of a table come in groups: the header row first, then all other rows in document order.
Read down its columns, the group of a row gives the lines of each of its cells again, in order and
once, and there is nothing else in it.  In the plain mode the columns that hold a cell of several
lines are aligned with the dashes below the header.

* `Shows`: a group of lines shows the cells of a row.
* `columns_aligned`: the segments of a column with a cell of several lines.
* `rows_read_back`: the rows of a table, read from its text.
-/

namespace Hypermark

open Text Markdown

namespace Table

/-! ## Cells of a row -/

/-- A group of lines shows the cells of a row: read down its column each cell gives the lines that
its value shows, with some bars escaped, and all other segments are blank. -/
structure Shows (n : Nat) (r : Arranged) (group : List (List Text)) : Prop where
  ne_nil : group ≠ []
  width : ∀ line ∈ group, line.length = n
  ordered : r.columns.Pairwise (· < ·)
  within : ∀ j ∈ r.columns, j < n
  shown : List.Forall₂ (fun cell j =>
    List.Forall₂ Guarded (displayLines cell.value) (readColumn j group)) r.row.cells r.columns
  blank : ∀ line ∈ group, ∀ j, j ∉ r.columns → allBlank (line.getD j []) = true

theorem shows_of_fits {n : Nat} {r : Arranged} {group : List (List Text)} (hfits : r.Fits)
    (hn : r.values.length ≤ n) (h : ShowsValues n r.values group) : Shows n r group where
  ne_nil := h.ne_nil
  width := h.width
  ordered := hfits.ordered
  within j hj := Nat.lt_of_lt_of_le (hfits.within j hj) hn
  shown := (List.forall₂_map_left_iff.mp hfits.shown).imp fun cell j hcell => hcell ▸ h.read j
  blank line hline j hj := by
    have hread := h.read j
    rw [hfits.blank j hj] at hread
    have hnil : readColumn j group = [] := List.forall₂_nil_left_iff.mp hread
    have hblank := List.filter_eq_nil_iff.mp hnil (trim (line.getD j [])) <|
      List.mem_map_of_mem (List.mem_map_of_mem hline)
    rw [← trim_eq_nil_iff]
    simpa using hblank

/-! ## Columns of several lines -/

section Columns

variable {header : List Text} {others : List (List Text)} {j : Nat}

theorem plainColumns_getElem (hrows : ∀ values ∈ header :: others,
      values.length ≤ columnCount header others)
    (hj : j < (plainColumns header others).length) : (plainColumns header others)[j] =
      columnOf ((header :: others).map fun values => cellLines (values.getD j [])) := by
  rw [Arrangement.length_plainColumns] at hj
  simp only [plainColumns, columnsOf, List.getElem_map, List.getElem_range, List.map_map]
  congr 1
  refine List.map_congr_left fun values hvalues => ?_
  have hle := hrows values hvalues
  have hlt : j < (padRow (columnCount header others) values).length := by rwa [length_padRow]
  rw [Function.comp_apply, List.getD_eq_getElem?_getD, List.getElem?_map, ← getD_padRow hle,
    List.getD_eq_getElem?_getD, List.getElem?_eq_getElem hlt]
  rfl

/-- A column with a cell of several lines is padded to a width that all its lines fit in. -/
theorem columnOf_of_several {cells : List (List Text)} {cell : List Text} (hcell : cell ∈ cells)
    (h : 1 < cell.length) : (columnOf cells).padded = true ∧
      ∀ c ∈ cells, ∀ l ∈ c, l.length ≤ (columnOf cells).width := by
  have hpadded : cells.any (1 < ·.length) = true :=
    List.any_eq_true.mpr ⟨cell, hcell, decide_eq_true h⟩
  refine ⟨hpadded, fun c hc l hl => ?_⟩
  simp only [columnOf, hpadded, if_true]
  calc l.length ≤ widest c := le_foldl_max (List.mem_map_of_mem hl)
    _ ≤ (cells.map widest).foldl max 0 := le_foldl_max (List.mem_map_of_mem hc)
    _ ≤ max ((cells.map widest).foldl max 0) 1 := Nat.le_max_left _ 1

/-- The segments of a padded column are as long as the column is wide. -/
theorem length_segment {columns : List Column} {cells : List (List Text)}
    (hlength : cells.length = columns.length) (hj : j < columns.length)
    (hpadded : columns[j].padded = true)
    (hfit : ∀ l ∈ cells[j], l.length ≤ columns[j].width) {line : List Text}
    (hline : line ∈ plainGroup columns cells) : (line.getD j []).length = columns[j].width := by
  rw [plainGroup] at hline
  split at hline
  · rw [List.mem_singleton.mp hline, List.getD_eq_getElem?_getD, List.getElem?_map,
      List.getElem?_eq_getElem hj]
    exact List.length_replicate
  · obtain ⟨i, _, rfl⟩ := List.mem_map.mp (List.mem_filter.mp hline).1
    have hlt : j < (List.zipWith (cellAt i) cells columns).length := by
      rw [List.length_zipWith]
      omega
    have hle : (cells[j].getD i []).length ≤ columns[j].width := by
      rw [List.getD_eq_getElem?_getD]
      cases hl : cells[j][i]? with
      | none => exact Nat.zero_le _
      | some l => exact hfit l (List.mem_of_getElem? hl)
    rw [List.getD_eq_getElem?_getD, List.getElem?_eq_getElem hlt, Option.getD_some,
      List.getElem_zipWith, cellAt, if_pos hpadded, justify, List.rightpad, List.length_append,
      List.length_replicate]
    omega

/-- A value of several lines has several lines in the plain layout. -/
theorem one_lt_length_cellLines {v : Text} (h : 1 < (displayLines v).length) :
    1 < (cellLines v).length := by
  have hshown : (shown (cellLines v)).length ≤ (cellLines v).length :=
    Nat.le_trans (List.length_filter_le ..) (Nat.le_of_eq (List.length_map ..))
  rw [← (guarded_cellLines v).length_eq] at hshown
  exact Nat.lt_of_lt_of_le h hshown

/-- In a column with a value of several lines all segments have the length of the dashes, less the
two that stand for the spaces around a segment. -/
theorem columns_aligned {values : List Text} (hvalues : values ∈ header :: others)
    (h : 1 < (displayLines (values.getD j [])).length)
    (hrows : ∀ values ∈ header :: others, values.length ≤ columnCount header others) :
    ∀ line ∈ (plainSheet header others).head ++ (plainSheet header others).body.flatten,
      (line.getD j []).length + 2 = (plainSheet header others).dashes.getD j 0 := by
  have hj : j < (plainColumns header others).length := by
    rw [Arrangement.length_plainColumns]
    by_contra hge
    have hle := hrows values hvalues
    rw [List.getD_eq_getElem?_getD, List.getElem?_eq_none (by omega)] at h
    exact absurd h (by decide)
  have hcolumn := plainColumns_getElem hrows hj
  obtain ⟨hpadded, hfit⟩ := columnOf_of_several
    (List.mem_map_of_mem (f := fun values => cellLines (values.getD j [])) hvalues)
    (one_lt_length_cellLines h)
  rw [← hcolumn] at hpadded hfit
  have hwidth : 1 ≤ (plainColumns header others)[j].width := by
    rw [hcolumn]
    exact Nat.le_max_right _ 1
  have hdashes : (plainSheet header others).dashes.getD j 0 =
      (plainColumns header others)[j].width + 2 := by
    simp only [plainSheet, List.getD_eq_getElem?_getD, List.getElem?_map,
      List.getElem?_eq_getElem hj, Option.map_some, Option.getD_some]
    omega
  have hgroup : ∀ row ∈ header :: others, ∀ line ∈ plainGroup (plainColumns header others)
      ((padRow (columnCount header others) row).map cellLines),
        (line.getD j []).length = (plainColumns header others)[j].width := by
    intro row hrow line hline
    have hlength : ((padRow (columnCount header others) row).map cellLines).length =
        (plainColumns header others).length := by
      rw [List.length_map, length_padRow, Arrangement.length_plainColumns]
    refine length_segment hlength hj hpadded ?_ hline
    have hcell : ((padRow (columnCount header others) row).map cellLines)[j] =
        cellLines (row.getD j []) := by
      rw [List.getElem_map, ← getD_padRow (hrows row hrow), List.getD_eq_getElem?_getD,
        List.getElem?_eq_getElem]
      rfl
    rw [hcell]
    exact hfit _ (List.mem_map_of_mem (f := fun values => cellLines (values.getD j [])) hrow)
  intro line hline
  rw [hdashes]
  rcases List.mem_append.mp hline with hline | hline
  · rw [hgroup header (List.mem_cons_self ..) line hline]
  · obtain ⟨group, hmem, hline⟩ := List.mem_flatten.mp hline
    obtain ⟨row, hrow, rfl⟩ := List.mem_map.mp hmem
    rw [hgroup row (List.mem_cons_of_mem _ hrow) line hline]

end Columns

/-! ## Tables -/

/-- A table whose rows can be read from its lines. -/
structure ReadsBack (rows : List (Row Cell)) (s : Sheet) : Prop where
  first : rows[headerIndex rows]? = some (arrangement rows).header.row
  rest : (arrangement rows).others.map Arranged.row = rows.eraseIdx (headerIndex rows)
  header : Shows (arrangement rows).columns (arrangement rows).header s.head
  others : List.Forall₂ (fun r group => Shows ((arrangement rows).width r) r group)
    (arrangement rows).others s.body
  /-- The columns of a plain table that hold a cell of several lines. -/
  aligned : modeOf rows = .plain → ∀ row ∈ rows, ∀ j cell, row.cells[j]? = some cell →
    1 < (displayLines cell.value).length →
      ∀ line ∈ s.head ++ s.body.flatten, (line.getD j []).length + 2 = s.dashes.getD j 0
  /-- Without backticks the segments are what stands between the live bars of a line. -/
  cut : (∀ row ∈ rows, ∀ c ∈ row.cells, backtick ∉ c.value) →
    ∀ line ∈ s.head ++ s.body.flatten,
      cutBars (tableLine line) = [] :: line.map (fun t => ' ' :: t ++ [' ']) ++ [[]]

theorem arrangement_of_plain {rows : List (Row Cell)} (h : modeOf rows = .plain) :
    arrangement rows = ⟨.plain, inOrder (rows.getD (headerIndex rows) ⟨false, []⟩),
      (rows.eraseIdx (headerIndex rows)).map inOrder⟩ := by
  rw [arrangement, h]

/-- In a plain table the values of every row are those of its cells. -/
theorem mem_values_of_plain {rows : List (Row Cell)} (h : modeOf rows = .plain) {row : Row Cell}
    (hrow : row ∈ rows) : row.cells.map Cell.value ∈ (arrangement rows).header.values ::
      (arrangement rows).others.map Arranged.values := by
  have hlt := headerIndex_lt (List.ne_nil_of_mem hrow)
  have hmap : row.cells.map Cell.value = (inOrder row).values := rfl
  rw [arrangement_of_plain h, List.getD_eq_getElem?_getD, List.getElem?_eq_getElem hlt, hmap]
  obtain ⟨i, hi, rfl⟩ := List.getElem_of_mem hrow
  by_cases heq : i = headerIndex rows
  · subst heq
    exact List.mem_cons_self ..
  · have hmem := List.mem_eraseIdx_iff_getElem.mpr ⟨i, hi, heq, rfl⟩
    exact List.mem_cons_of_mem _ (List.mem_map_of_mem (List.mem_map_of_mem hmem))

theorem readsBack_arrangement {rows : List (Row Cell)} (hne : rows ≠ [])
    (hcells : ∀ row ∈ rows, row.cells ≠ []) : ReadsBack rows (arrangement rows).sheet := by
  let a := arrangement rows
  obtain ⟨hfirst, hrest⟩ := rows_arrangement hne
  obtain ⟨hfits, hfits'⟩ := fits_arrangement hne
  have hbody := a.body_shows (values_ne_nil hne hcells)
  have hwidth : ∀ r ∈ a.others, r.values.length ≤ a.width r := fun r hr => by
    unfold Arrangement.width
    split
    · exact Nat.le_refl _
    · exact a.length_le hr
  refine ⟨hfirst, hrest, shows_of_fits hfits a.length_header_le a.head_shows, ?_,
    fun hmode row hrow j cell hcell hseveral => ?_, fun hticks line hline => ?_⟩
  · have hall : ∀ r ∈ a.others, r.Fits ∧ r.values.length ≤ a.width r :=
      fun r hr => ⟨hfits' r hr, hwidth r hr⟩
    exact ((List.forall₂_and_left _ _).mpr ⟨hall, hbody⟩).imp fun r group h =>
      shows_of_fits h.1.1 h.1.2 h.2
  · have hsheet : a.sheet = plainSheet a.header.values (a.others.map Arranged.values) := by
      unfold Arrangement.sheet
      rw [show a.mode = .plain from (mode_arrangement rows).trans hmode]
    have hvalue : (row.cells.map Cell.value).getD j [] = cell.value := by
      rw [List.getD_eq_getElem?_getD, List.getElem?_map, hcell]
      rfl
    rw [← hvalue] at hseveral
    show ∀ line ∈ a.sheet.head ++ a.sheet.body.flatten, _ = a.sheet.dashes.getD j 0
    rw [hsheet]
    refine columns_aligned (mem_values_of_plain hmode hrow) hseveral ?_
    rw [List.forall_mem_cons, List.forall_mem_map]
    exact ⟨a.length_header_le, fun r hr => a.length_le hr⟩
  · have hbars := no_bar_sheet hne hticks
    rcases List.mem_append.mp hline with hline | hline
    · refine cutBars_tableLine ?_ (hbars.head line hline)
      have hpos := a.columns_pos
      exact List.ne_nil_of_length_pos (by rw [a.head_shows.width line hline]; exact hpos)
    · obtain ⟨group, hgroup, hline⟩ := List.mem_flatten.mp hline
      obtain ⟨r, hr, hshows⟩ := exists_of_mem_right hbody hgroup
      refine cutBars_tableLine ?_ (hbars.body group hgroup line hline)
      have hpos := List.length_pos_of_ne_nil (values_ne_nil hne hcells r hr)
      have hle := hwidth r hr
      exact List.ne_nil_of_length_pos (by rw [hshows.width line hline]; omega)

end Table

namespace Render

open Table

/-- The rows of a table without another one in it are read back from its lines, in every mode; a
table without rows is nothing. -/
theorem rows_read_back {opts : Options} {scope : Scope} {n : Node} {t : Text}
    (hrole : n.role = .table) (hnested : (⟨[], scope, n⟩ : Place).findTag? "table".toList = none)
    (h : (block opts scope n).outcome = .ok t) :
    tableRows opts scope n = [] ∧ t = [] ∨
      ∃ title table sheet, (caption ⟨[], scope, n⟩).outcome = .ok title ∧
        t = captioned title table ∧ lines table = sheet.lines ∧
        ReadsBack (tableRows opts scope n) sheet := by
  by_cases hrows : tableRows opts scope n = []
  · rw [block_table hrole hnested, hrows, render_nil] at h
    exact .inl ⟨hrows, (Except.ok.inj h).symm⟩
  · obtain ⟨title, table, htitle, ht, hlines⟩ := block_table_eq hrole hnested hrows h
    exact .inr ⟨title, table, _, htitle, ht, hlines,
      readsBack_arrangement hrows fun _ hrow => cells_ne_nil_of_mem_tableRows hrow⟩

/-- The header comes last in the source, and a cell reaches over two rows. -/
theorem expanded_rows_read_back :
    let table : Node := .element "table".toList [] [
      .element "tr".toList [] [
        .element "td".toList [("rowspan".toList, some "2".toList)] [.text "a|b".toList],
        .element "td".toList [] [.text "c".toList, .element "br".toList [] [], .text "d".toList]],
      .element "tr".toList [] [
        .element "td".toList [] [.element "code".toList [] [.text "e|f".toList]]],
      .element "tr".toList [] [.element "th".toList [] [.text "g".toList]]]
    let text := "| g |  |\n|---|---|\n| a\\|b | c |\n|  | d |\n|  | \x60e|f\x60 |".toList
    (block Options.standard [] table).outcome = .ok text ∧
      ∃ title t sheet, (caption ⟨[], [], table⟩).outcome = .ok title ∧ text = captioned title t ∧
        lines t = sheet.lines ∧ ReadsBack (tableRows Options.standard [] table) sheet :=
  ⟨rfl, (rows_read_back rfl rfl rfl).resolve_left fun h => List.cons_ne_nil _ _ h.1⟩

end Render

end Hypermark
