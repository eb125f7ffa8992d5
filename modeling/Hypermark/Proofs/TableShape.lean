import Hypermark.Proofs.RowPlaces
import Hypermark.Proofs.TableModes

/-!
# The shape of a table

All lines of a table have the same number of live bars, one more than the table has columns, as
long as no cell has a backtick; only in a table that is set row by row the rows below the header
keep their own number of cells.  The line of dashes has one group for each column.

* `ShowsValues`: a group of lines shows the values of a row.
* `head_shows`, `body_shows`: every row of an arrangement is shown by its group.
* `table_has_shape`: the number of live bars on the lines of a table.
-/

namespace Hypermark

open Text Markdown

namespace Markdown

/-- Escaping adds nothing but backslashes. -/
theorem Guarded.mem {s t : Text} (h : Guarded s t) {c : Char} (hc : c ∈ t) (hslash : c ≠ '\\') :
    c ∈ s := by
  induction h with
  | nil => exact hc
  | keep d h ih =>
    rcases List.mem_cons.mp hc with rfl | hc
    · exact List.mem_cons_self ..
    · exact List.mem_cons_of_mem _ (ih hc)
  | guard h ih =>
    rcases List.mem_cons.mp hc with rfl | hc
    · exact absurd rfl hslash
    rcases List.mem_cons.mp hc with rfl | hc
    · exact List.mem_cons_self ..
    · exact List.mem_cons_of_mem _ (ih hc)

theorem mem_of_mem_escapeCellLine {c : Char} {line : Text} (h : c ∈ escapeCellLine line)
    (hslash : c ≠ '\\') : c ∈ line :=
  (guarded_escapePipesFrom 0 0 line).mem ((infix_trim _).subset h) hslash

theorem mem_of_mem_unifyBreaks {c : Char} {t : Text} (h : c ∈ unifyBreaks t) (hfeed : c ≠ '\n') :
    c ∈ t := by
  fun_induction unifyBreaks t with
  | case1 => exact h
  | case2 t ih =>
    rcases List.mem_cons.mp h with rfl | h
    · exact absurd rfl hfeed
    · exact List.mem_cons_of_mem _ (List.mem_cons_of_mem _ (ih h))
  | case3 t _ ih =>
    rcases List.mem_cons.mp h with rfl | h
    · exact absurd rfl hfeed
    · exact List.mem_cons_of_mem _ (ih h)
  | case4 d t _ _ ih =>
    rcases List.mem_cons.mp h with rfl | h
    · exact List.mem_cons_self ..
    · exact List.mem_cons_of_mem _ (ih h)

theorem mem_of_mem_lines {c : Char} {t l : Text} (hl : l ∈ lines t) (hc : c ∈ l) : c ∈ t := by
  rw [← unlines_lines t, unlines]
  generalize lines t = ls at hl
  induction ls with
  | nil => cases hl
  | cons k ls ih =>
    cases ls with
    | nil =>
      rw [List.mem_singleton.mp hl] at hc
      rwa [List.intercalate_singleton]
    | cons m ls =>
      rw [List.intercalate_cons_cons, List.append_assoc, List.mem_append, List.mem_append]
      rcases List.mem_cons.mp hl with rfl | hl
      · exact .inl hc
      · exact .inr (.inr (ih hl))

end Markdown

namespace Table

/-! ## Lines of values -/

/-- What holds of the lines of a value in both layouts. -/
def HoldsOfLines (P : Text → Prop) (v : Text) : Prop :=
  (∀ l ∈ cellLines v, P l) ∧ ∀ l ∈ lines (unifyBreaks (escapeCellLine v)), P l

theorem mem_cellLines {v l : Text} (h : l ∈ cellLines v) :
    l = [] ∨ ∃ line ∈ lines (unifyBreaks v), l = escapeCellLine line := by
  unfold cellLines at h
  split at h
  · exact .inl (List.mem_singleton.mp h)
  · obtain ⟨line, hline, rfl⟩ := List.mem_map.mp (List.mem_filter.mp h).1
    exact .inr ⟨line, hline, rfl⟩

theorem no_feed_of_lines (v : Text) : HoldsOfLines ('\n' ∉ ·) v := by
  constructor
  · intro l hl
    rcases mem_cellLines hl with rfl | ⟨line, hline, rfl⟩
    · exact List.not_mem_nil
    · exact fun hmem => no_feed_of_mem_lines hline (mem_of_mem_escapeCellLine hmem (by decide))
  · exact fun l hl => no_feed_of_mem_lines hl

theorem no_bar_of_lines {v : Text} (h : backtick ∉ v) : HoldsOfLines (liveBars · = 0) v := by
  constructor
  · intro l hl
    rcases mem_cellLines hl with rfl | ⟨line, hline, rfl⟩
    · rfl
    · exact liveBars_escapeCellLine fun hmem =>
        h (mem_of_mem_unifyBreaks (mem_of_mem_lines hline hmem) (by decide))
  · intro l hl
    refine liveBars_eq_zero_of_mem_lines ?_ hl
    rw [liveBars_unifyBreaks, liveBars_escapeCellLine h]

/-! ## Groups of lines -/

/-- A group of lines shows values: read down a column, it gives the lines of the value there. -/
structure ShowsValues (n : Nat) (values : List Text) (group : List (List Text)) : Prop where
  ne_nil : group ≠ []
  width : ∀ line ∈ group, line.length = n
  read : ∀ j, List.Forall₂ Guarded (displayLines (values.getD j [])) (readColumn j group)

theorem padRow_eq {n : Nat} {values : List Text} (h : values.length ≤ n) :
    padRow n values = values ++ List.replicate (n - values.length) [] := by
  rw [padRow, List.take_append, List.take_of_length_le h, List.take_replicate]
  congr 2
  omega

theorem getD_padRow {n : Nat} {values : List Text} (h : values.length ≤ n) (j : Nat) :
    (padRow n values).getD j [] = values.getD j [] := by
  rw [padRow_eq h]
  rcases Nat.lt_or_ge j values.length with hj | hj
  · exact List.getD_append _ _ _ _ hj
  · rw [List.getD_append_right _ _ _ _ hj, List.getD_eq_getElem?_getD, List.getElem?_replicate,
      List.getD_eq_getElem?_getD, List.getElem?_eq_none hj]
    split <;> rfl

theorem mem_padRow {n : Nat} {values : List Text} {v : Text} (h : v ∈ padRow n values) :
    v ∈ values ∨ v = [] := by
  rcases List.mem_append.mp (List.mem_of_mem_take h) with h | h
  · exact .inl h
  · exact .inr (List.eq_of_mem_replicate h)

section Groups

variable {n : Nat} {values : List Text}

theorem showsValues_plain {columns : List Column} (hcolumns : columns.length = n)
    (h : values.length ≤ n) :
    ShowsValues n values (plainGroup columns ((padRow n values).map cellLines)) := by
  have hlength : ((padRow n values).map cellLines).length = columns.length := by
    rw [List.length_map, length_padRow, hcolumns]
  refine ⟨plainGroup_ne_nil _ _, fun line hline => ?_, fun j => ?_⟩
  · rw [length_of_mem_plainGroup hlength hline, hcolumns]
  · rw [readColumn_plainGroup hlength, ← getD_padRow h, List.getD_eq_getElem?_getD,
      List.getD_eq_getElem?_getD, List.getElem?_map]
    cases (padRow n values)[j]? with
    | none => exact .nil
    | some v => exact guarded_cellLines v

theorem showsValues_stacked (h : values ≠ []) :
    ShowsValues values.length values ((stackedGroup values).map filled) := by
  refine ⟨by simpa using stackedGroup_ne_nil values, fun line hline => ?_, fun j => ?_⟩
  · exact length_of_mem_stackedGroup h hline
  · rw [readColumn_filled, readColumn_stackedGroup]
    exact guarded_displayLines _

theorem showsValues_stacked_padRow (hn : 1 ≤ n) (h : values.length ≤ n) :
    ShowsValues n values ((stackedGroup (padRow n values)).map filled) := by
  have hlength := length_padRow n values
  have hne : padRow n values ≠ [] := by
    rintro hnil
    rw [hnil, List.length_nil] at hlength
    omega
  have hshows := showsValues_stacked hne
  rw [hlength] at hshows
  exact ⟨hshows.ne_nil, hshows.width, fun j => by rw [← getD_padRow h]; exact hshows.read j⟩

end Groups

/-! ## Arrangements -/

/-- A predicate holds of all segments. -/
structure Sheet.All (P : Text → Prop) (s : Sheet) : Prop where
  head : ∀ line ∈ s.head, ∀ t ∈ line, P t
  body : ∀ group ∈ s.body, ∀ line ∈ group, ∀ t ∈ line, P t

namespace Arrangement

variable (a : Arrangement)

theorem columns_pos : 1 ≤ a.columns := Nat.le_max_right _ 1

theorem length_header_le : a.header.values.length ≤ a.columns :=
  Nat.le_trans ((foldl_max_le_iff _ _ _).mp (Nat.le_refl _)).1 (Nat.le_max_left _ 1)

theorem length_le {r : Arranged} (h : r ∈ a.others) : r.values.length ≤ a.columns := by
  refine Nat.le_trans ?_ (Nat.le_max_left _ 1)
  refine ((foldl_max_le_iff _ _ _).mp (Nat.le_refl _)).2 _ ?_
  exact List.mem_map_of_mem (List.mem_map_of_mem h)

theorem length_plainColumns (header : List Text) (others : List (List Text)) :
    (plainColumns header others).length = columnCount header others := by
  rw [plainColumns, columnsOf, List.length_map, List.length_range]

theorem length_dashes : a.sheet.dashes.length = a.columns := by
  unfold sheet
  split
  · exact (List.length_map ..).trans (length_plainColumns _ _)
  · exact (List.length_map ..).trans (length_padRow _ _)
  · exact (List.length_map ..).trans (length_padRow _ _)

theorem dashes_le : ∀ n ∈ a.sheet.dashes, 3 ≤ n := by
  unfold sheet
  split <;> exact List.forall_mem_map.mpr fun _ _ => Nat.le_max_right _ 3

theorem head_shows : ShowsValues a.columns a.header.values a.sheet.head := by
  unfold sheet
  split
  · exact showsValues_plain (length_plainColumns _ _) a.length_header_le
  · exact showsValues_stacked_padRow a.columns_pos a.length_header_le
  · exact showsValues_stacked_padRow a.columns_pos a.length_header_le

theorem body_shows (hne : ∀ r ∈ a.others, r.values ≠ []) :
    List.Forall₂ (fun r group => ShowsValues (a.width r) r.values group) a.others a.sheet.body := by
  unfold sheet width
  cases a.mode with
  | plain =>
    refine List.forall₂_map_right_iff.mpr (List.forall₂_map_right_iff.mpr ?_)
    exact List.forall₂_same.mpr fun r hr =>
      showsValues_plain (length_plainColumns _ _) (a.length_le hr)
  | expanded =>
    refine List.forall₂_map_right_iff.mpr (List.forall₂_map_right_iff.mpr ?_)
    exact List.forall₂_map_right_iff.mpr <| List.forall₂_same.mpr fun r hr =>
      showsValues_stacked_padRow a.columns_pos (a.length_le hr)
  | rowByRow =>
    refine List.forall₂_map_right_iff.mpr (List.forall₂_map_right_iff.mpr ?_)
    exact List.forall₂_same.mpr fun r hr => showsValues_stacked (hne r hr)

/-- What holds of the lines of all values holds of all segments. -/
theorem all_sheet {P : Text → Prop} (hP : KeptByPadding P)
    (hheader : ∀ v ∈ a.header.values, HoldsOfLines P v)
    (hothers : ∀ r ∈ a.others, ∀ v ∈ r.values, HoldsOfLines P v) : a.sheet.All P := by
  have hnil : HoldsOfLines P [] := by
    constructor
    · exact fun l hl => (List.mem_singleton.mp hl).symm ▸ hP.nil
    · exact fun l hl => (List.mem_singleton.mp hl).symm ▸ hP.nil
  have hpadded : ∀ {n : Nat} {values : List Text}, (∀ v ∈ values, HoldsOfLines P v) →
      ∀ v ∈ padRow n values, HoldsOfLines P v := fun h v hv => by
    rcases mem_padRow hv with hv | rfl
    · exact h v hv
    · exact hnil
  have hplain : ∀ {columns : List Column} {values : List Text},
      (∀ v ∈ values, HoldsOfLines P v) →
        ∀ line ∈ plainGroup columns (values.map cellLines), ∀ s ∈ line, P s := fun h =>
    hP.plainGroup (List.forall_mem_map.mpr fun v hv => (h v hv).1)
  have hstacked : ∀ {values : List Text}, (∀ v ∈ values, HoldsOfLines P v) →
      ∀ line ∈ (stackedGroup values).map filled, ∀ s ∈ line, P s := fun h =>
    hP.stackedGroup fun v hv => (h v hv).2
  unfold sheet
  split
  · refine ⟨hplain (hpadded hheader), List.forall_mem_map.mpr (List.forall_mem_map.mpr ?_)⟩
    exact fun r hr => hplain (hpadded (hothers r hr))
  · refine ⟨hstacked (hpadded hheader), List.forall_mem_map.mpr (List.forall_mem_map.mpr ?_)⟩
    exact List.forall_mem_map.mpr fun r hr => hstacked (hpadded (hothers r hr))
  · refine ⟨hstacked (hpadded hheader), List.forall_mem_map.mpr (List.forall_mem_map.mpr ?_)⟩
    exact fun r hr => hstacked (hothers r hr)

theorem lines_unlines : lines (unlines a.sheet.lines) = a.sheet.lines :=
  have h := a.all_sheet .no_feed (fun v _ => no_feed_of_lines v) fun _ _ v _ => no_feed_of_lines v
  Sheet.lines_unlines h.head h.body

end Arrangement

/-! ## Values and cells -/

theorem exists_of_mem_right {α β : Type} {R : α → β → Prop} {xs : List α} {ys : List β}
    (h : List.Forall₂ R xs ys) {y : β} (hy : y ∈ ys) : ∃ x ∈ xs, R x y := by
  obtain ⟨i, hi, rfl⟩ := List.getElem_of_mem hy
  have hxs : i < xs.length := h.length_eq ▸ hi
  exact ⟨xs[i], List.getElem_mem hxs, h.get hxs hi⟩

/-- A row with a cell has a value. -/
theorem Arranged.Fits.values_ne_nil {r : Arranged} (h : r.Fits) (hcells : r.row.cells ≠ []) :
    r.values ≠ [] := by
  have hlength := h.shown.length_eq
  rw [List.length_map] at hlength
  have hcolumns : r.columns ≠ [] := fun hnil => by
    rw [hnil] at hlength
    exact hcells (List.length_eq_zero_iff.mp hlength)
  obtain ⟨j, _, hj⟩ := List.exists_cons_of_ne_nil hcolumns
  have hwithin := h.within j (hj ▸ List.mem_cons_self ..)
  exact List.ne_nil_of_length_pos (Nat.lt_of_le_of_lt (Nat.zero_le j) hwithin)

/-- A row has the values of its cells and nothing else. -/
theorem Fits.eq_nil_or_mem {cells columnTexts : List Text} {columns : List Nat}
    (h : Fits cells columnTexts columns) {v : Text} (hv : v ∈ columnTexts) : v = [] ∨ v ∈ cells := by
  obtain ⟨j, hj, rfl⟩ := List.getElem_of_mem hv
  have hget : columnTexts.getD j [] = columnTexts[j] := by
    rw [List.getD_eq_getElem?_getD, List.getElem?_eq_getElem hj]
    rfl
  by_cases hmem : j ∈ columns
  · obtain ⟨i, hi, rfl⟩ := List.getElem_of_mem hmem
    have hcell := h.shown.get (h.shown.length_eq ▸ hi) hi
    rw [List.get_eq_getElem, List.get_eq_getElem, hget] at hcell
    exact .inr (hcell ▸ List.getElem_mem _)
  · exact .inl (hget ▸ h.blank j hmem)

section Table

variable {rows : List (Row Cell)} (hne : rows ≠ [])
include hne

/-- What holds of nothing and of all cells holds of all values. -/
theorem forall_values {Q : Text → Prop} (hnil : Q [])
    (hcells : ∀ row ∈ rows, ∀ c ∈ row.cells, Q c.value) :
    (∀ v ∈ (arrangement rows).header.values, Q v) ∧
      ∀ r ∈ (arrangement rows).others, ∀ v ∈ r.values, Q v := by
  obtain ⟨hheader, hothers⟩ := rows_arrangement hne
  obtain ⟨hfits, hfits'⟩ := fits_arrangement hne
  have hrow : ∀ r : Arranged, r.Fits → r.row ∈ rows → ∀ v ∈ r.values, Q v := by
    intro r hr hmem v hv
    rcases hr.eq_nil_or_mem hv with rfl | hv
    · exact hnil
    · obtain ⟨c, hc, rfl⟩ := List.mem_map.mp hv
      exact hcells r.row hmem c hc
  refine ⟨hrow _ hfits (List.mem_of_getElem? hheader), fun r hr => hrow r (hfits' r hr) ?_⟩
  have hmem : r.row ∈ rows.eraseIdx (headerIndex rows) := hothers ▸ List.mem_map_of_mem hr
  exact List.mem_of_mem_eraseIdx hmem

theorem values_ne_nil (hcells : ∀ row ∈ rows, row.cells ≠ []) :
    ∀ r ∈ (arrangement rows).others, r.values ≠ [] := by
  intro r hr
  have hmem : r.row ∈ rows.eraseIdx (headerIndex rows) :=
    (rows_arrangement hne).2 ▸ List.mem_map_of_mem hr
  exact ((fits_arrangement hne).2 r hr).values_ne_nil (hcells _ (List.mem_of_mem_eraseIdx hmem))

/-- Without backticks in its cells, no segment of a table has a live bar. -/
theorem no_bar_sheet (hcells : ∀ row ∈ rows, ∀ c ∈ row.cells, backtick ∉ c.value) :
    (arrangement rows).sheet.All (liveBars · = 0) := by
  obtain ⟨hheader, hothers⟩ := forall_values hne (Q := (backtick ∉ ·)) List.not_mem_nil hcells
  exact (arrangement rows).all_sheet .no_bar (fun v hv => no_bar_of_lines (hheader v hv))
    fun r hr v hv => no_bar_of_lines (hothers r hr v hv)

end Table

end Table

namespace Render

open Table

/-! ## Tables in documents -/

/-- The rows that a table is rendered from. -/
def tableRows (opts : Options) (scope : Scope) (table : Node) : List (Row Cell) :=
  rowsAmong opts (⟨[], scope, table⟩ : Place).innerScope table.children

theorem block_table {opts : Options} {scope : Scope} {n : Node} (hrole : n.role = .table)
    (hnested : (⟨[], scope, n⟩ : Place).findTag? "table".toList = none) :
    block opts scope n = Table.render (tableRows opts scope n) (caption ⟨[], scope, n⟩) := by
  cases n with
  | element name attrs cs =>
    simp only [block, hrole, hnested, Option.isSome_none, Bool.false_eq_true, if_false]
    rfl
  | text t => cases hrole
  | comment t => cases hrole
  | directive k t => cases hrole

theorem map_node_siblings (path : List Nat) (scope : Scope) (i : Nat) (ns : List Node) :
    (Place.siblings path scope i ns).map Place.node = ns := by
  induction ns generalizing i with
  | nil => rfl
  | cons n ns ih => rw [Place.siblings, List.map_cons, ih]

/-- Every row that is rendered has a cell. -/
theorem cells_ne_nil_of_mem_tableRows {opts : Options} {scope : Scope} {n : Node} {row : Row Cell}
    (h : row ∈ tableRows opts scope n) : row.cells ≠ [] := by
  rw [tableRows, rowsAmong_eq opts [] _ 0] at h
  obtain ⟨place, hplace, rfl⟩ := List.mem_map.mp h
  have hrow := (List.mem_filter.mp hplace).2
  rw [isRow, Bool.and_eq_true, List.any_eq_true] at hrow
  obtain ⟨-, c, hc, hcell⟩ := hrow
  rw [← map_node_siblings place.path place.innerScope 0 place.node.children] at hc
  obtain ⟨child, hchild, rfl⟩ := List.mem_map.mp hc
  exact List.ne_nil_of_mem (List.mem_map_of_mem (List.mem_filter.mpr ⟨hchild, hcell⟩))

/-- The text of a table, and its lines. -/
theorem block_table_eq {opts : Options} {scope : Scope} {n : Node} {t : Text}
    (hrole : n.role = .table) (hnested : (⟨[], scope, n⟩ : Place).findTag? "table".toList = none)
    (hrows : tableRows opts scope n ≠ []) (h : (block opts scope n).outcome = .ok t) :
    ∃ title table, (caption ⟨[], scope, n⟩).outcome = .ok title ∧ t = captioned title table ∧
      lines table = (arrangement (tableRows opts scope n)).sheet.lines := by
  rw [block_table hrole hnested] at h
  obtain ⟨title, htitle, ht⟩ := render_eq h hrows
  exact ⟨title, _, htitle, ht, Arrangement.lines_unlines _⟩

/-- A table of `c` columns as text.  Its lines have one live bar more than it has columns, except
below the header of a table that is set row by row, and each column has a group of dashes. -/
def HasShape (mode : Mode) (c : Nat) (table : Text) : Prop :=
  ∃ head dashes body, lines table = head ++ dashLine dashes :: body ∧
    head ≠ [] ∧ (∀ l ∈ head, liveBars l = c + 1) ∧
    liveBars (dashLine dashes) = c + 1 ∧ dashes.length = c ∧ (∀ k ∈ dashes, 3 ≤ k) ∧
    (mode ≠ .rowByRow → ∀ l ∈ body, liveBars l = c + 1)

/-- A table without another one in it, whose cells have no backticks, has the shape of its mode. -/
theorem table_has_shape {opts : Options} {scope : Scope} {n : Node} {t : Text}
    (hrole : n.role = .table) (hnested : (⟨[], scope, n⟩ : Place).findTag? "table".toList = none)
    (hrows : tableRows opts scope n ≠ [])
    (hcells : ∀ row ∈ tableRows opts scope n, ∀ c ∈ row.cells, backtick ∉ c.value)
    (h : (block opts scope n).outcome = .ok t) :
    ∃ title table, (caption ⟨[], scope, n⟩).outcome = .ok title ∧ t = captioned title table ∧
      HasShape (modeOf (tableRows opts scope n)) (arrangement (tableRows opts scope n)).columns
        table := by
  let a := arrangement (tableRows opts scope n)
  obtain ⟨title, table, htitle, ht, hlines⟩ := block_table_eq hrole hnested hrows h
  have hbars : a.sheet.All (liveBars · = 0) := no_bar_sheet hrows hcells
  have hpos := a.columns_pos
  have hline : ∀ {line : List Text}, line.length = a.columns → (∀ s ∈ line, liveBars s = 0) →
      liveBars (tableLine line) = a.columns + 1 := fun {line} hlength hline => by
    have hne : line ≠ [] := List.ne_nil_of_length_pos (by omega)
    rw [liveBars_tableLine hne hline, hlength]
  refine ⟨title, table, htitle, ht, a.sheet.head.map tableLine, a.sheet.dashes,
    a.sheet.body.flatMap (List.map tableLine), hlines, by simpa using a.head_shows.ne_nil,
    List.forall_mem_map.mpr fun line hmem =>
      hline (a.head_shows.width line hmem) (hbars.head line hmem),
    ?_, a.length_dashes, a.dashes_le, fun hmode => ?_⟩
  · have hne : a.sheet.dashes ≠ [] :=
      List.ne_nil_of_length_pos (by rw [a.length_dashes]; omega)
    rw [liveBars_dashLine hne, a.length_dashes]
  · rw [List.forall_mem_flatMap]
    intro group hgroup
    have hvalues := values_ne_nil hrows fun _ hrow => cells_ne_nil_of_mem_tableRows hrow
    obtain ⟨r, _, hshows⟩ := exists_of_mem_right (a.body_shows hvalues) hgroup
    have hwidth : a.width r = a.columns := if_neg (by rwa [mode_arrangement])
    exact List.forall_mem_map.mpr fun line hmem =>
      hline ((hshows.width line hmem).trans hwidth) (hbars.body group hgroup line hmem)

/-- A header with a bar, and below it a backslash and a value of two lines. -/
theorem table_of_bars_has_shape :
    let table : Node := .element "table".toList [] [
      .element "tr".toList [] [.element "th".toList [] [.text "a|b".toList]],
      .element "tr".toList [] [.element "td".toList [] [.text "c\\".toList],
        .element "td".toList [] [.text "d".toList, .element "br".toList [] [], .text "|e".toList]]]
    let text := "| a\\|b |     |\n|------|-----|\n| c\\ | d   |\n|  | \\|e |".toList
    (block Options.standard [] table).outcome = .ok text ∧
      ∃ title t, (caption ⟨[], [], table⟩).outcome = .ok title ∧ text = captioned title t ∧
        HasShape (modeOf (tableRows Options.standard [] table))
          (arrangement (tableRows Options.standard [] table)).columns t := by
  intro table text
  have hcells : (tableRows Options.standard [] table).all (fun row =>
      row.cells.all fun c => c.value.all (· != backtick)) = true := by decide
  refine ⟨rfl, table_has_shape rfl rfl (List.cons_ne_nil _ _) (fun row hrow c hc hmem => ?_) rfl⟩
  have hne := List.all_eq_true.mp (List.all_eq_true.mp (List.all_eq_true.mp hcells row hrow) c hc)
    backtick hmem
  exact absurd hne (by decide)

end Render

end Hypermark
