import Mathlib.Data.List.GetD
import Hypermark.Convert
import Hypermark.Proofs.CellPlaces
import Hypermark.Proofs.Outcome

/-!
# Rows with cells from above

A row is laid out with a count for every column, of the rows in which a cell from above still stands
there.  A count goes down only when a row is laid out past its column.  So a row that ends early
leaves the counts to its right as they are, and they come out too high for the rows below.

* `RowFits`: what laying out one row does to the texts and to the counts.
* `Counted`: what the counts are after some rows.
* `cells_stand_in_grid`: when the cells stand where the table model puts them.
* `short_row_moves_cell`: a short row that moves a cell of the next one.
-/

namespace Hypermark.Table

open Traced

/-! ## One row -/

/-- The columns at the start that are counted as covered. -/
def skipped (slots : List Nat) : Nat := (slots.takeWhile (0 < ·)).length

theorem getD_pos_of_lt_skipped {slots : List Nat} {j : Nat} (hj : j < skipped slots) :
    0 < slots.getD j 0 := by
  induction slots generalizing j with
  | nil => cases hj
  | cons n slots ih =>
    unfold skipped at hj ih
    by_cases hn : 0 < n
    · rw [List.takeWhile_cons_of_pos (by simpa using hn), List.length_cons] at hj
      cases j with
      | zero => exact hn
      | succ j => exact ih (by omega)
    · rw [List.takeWhile_cons_of_neg (by simpa using hn)] at hj
      cases hj

theorem getD_skipped (slots : List Nat) : slots.getD (skipped slots) 0 = 0 := by
  induction slots with
  | nil => rfl
  | cons n slots ih =>
    unfold skipped at ih ⊢
    by_cases hn : 0 < n
    · rw [List.takeWhile_cons_of_pos (by simpa using hn), List.length_cons, List.getD_cons_succ, ih]
    · rw [List.takeWhile_cons_of_neg (by simpa using hn), List.length_nil, List.getD_cons_zero]
      omega

theorem getD_drop (xs : List Nat) (n j : Nat) : (xs.drop n).getD j 0 = xs.getD (n + j) 0 := by
  rw [List.getD_eq_getElem?_getD, List.getElem?_drop, ← List.getD_eq_getElem?_getD]

/-- The columns that are counted as covered, one row further down. -/
theorem getD_covered {slots : List Nat} {j : Nat} (hj : j < skipped slots) :
    ((slots.takeWhile (0 < ·)).map (· - 1)).getD j 0 = slots.getD j 0 - 1 := by
  have hj' : j < (slots.takeWhile (0 < ·)).length := hj
  have hslots : slots.getD j 0 = (slots.takeWhile (0 < ·)).getD j 0 := by
    conv => lhs; rw [← List.takeWhile_append_dropWhile (p := (0 < ·)) (l := slots)]
    exact List.getD_append _ _ _ _ hj'
  rw [hslots, List.getD_eq_getElem?_getD, List.getD_eq_getElem?_getD, List.getElem?_map,
    List.getElem?_eq_getElem hj']
  rfl

/-- What remains of a row after its first cell. -/
def afterCell (cell : Spanned) (cells : List Spanned) (slots : List Nat) : List Text × List Nat :=
  expandRow cells (slots.drop (skipped slots + cell.columns))

section Cell

variable {cell : Spanned} {cells : List Spanned} {slots : List Nat} {j : Nat}

theorem texts_expandRow_cons (cell : Spanned) (cells : List Spanned) (slots : List Nat) :
    (expandRow (cell :: cells) slots).1 = (slots.takeWhile (0 < ·)).map (fun _ => []) ++
      (cell.value :: List.replicate (cell.columns - 1) [] ++ (afterCell cell cells slots).1) := by
  simp only [expandRow, afterCell, skipped, List.drop_drop, List.append_assoc]

theorem slots_expandRow_cons (cell : Spanned) (cells : List Spanned) (slots : List Nat) :
    (expandRow (cell :: cells) slots).2 = (slots.takeWhile (0 < ·)).map (· - 1) ++
      (List.replicate cell.columns (cell.rows - 1) ++ (afterCell cell cells slots).2) := by
  simp only [expandRow, afterCell, skipped, List.drop_drop, List.append_assoc]

theorem length_expandRow_cons (hcell : cell.Extends) :
    (expandRow (cell :: cells) slots).1.length =
      skipped slots + cell.columns + (afterCell cell cells slots).1.length := by
  have hcolumns := hcell.1
  rw [texts_expandRow_cons]
  simp only [List.length_append, List.length_map, List.length_cons, List.length_replicate, skipped]
  omega

theorem text_before_cell (hj : j < skipped slots) :
    (expandRow (cell :: cells) slots).1.getD j [] = [] := by
  rw [texts_expandRow_cons, List.getD_append _ _ _ _ (by simpa [skipped] using hj),
    List.getD_eq_getElem?_getD, List.getElem?_map]
  cases (slots.takeWhile (0 < ·))[j]? <;> rfl

theorem text_from_cell :
    (expandRow (cell :: cells) slots).1.getD (skipped slots + j) [] =
      (cell.value :: List.replicate (cell.columns - 1) [] ++ (afterCell cell cells slots).1).getD
        j [] := by
  rw [texts_expandRow_cons, List.getD_append_right _ _ _ _ (by simp [skipped])]
  congr 1
  simp [skipped]

theorem text_at_cell :
    (expandRow (cell :: cells) slots).1.getD (skipped slots) [] = cell.value :=
  text_from_cell (j := 0)

theorem text_in_cell (hj : 0 < j) (hcolumns : j < cell.columns) :
    (expandRow (cell :: cells) slots).1.getD (skipped slots + j) [] = [] := by
  obtain ⟨i, rfl⟩ : ∃ i, j = i + 1 := ⟨j - 1, by omega⟩
  have hi : i < cell.columns - 1 := by omega
  rw [text_from_cell, List.cons_append, List.getD_cons_succ,
    List.getD_append _ _ _ _ (by simpa using hi), List.getD_eq_getElem?_getD,
    List.getElem?_replicate, if_pos hi]
  rfl

theorem text_after_cell (hcell : cell.Extends) :
    (expandRow (cell :: cells) slots).1.getD (skipped slots + (cell.columns + j)) [] =
      (afterCell cell cells slots).1.getD j [] := by
  have hcolumns := hcell.1
  have hlength : (cell.value :: List.replicate (cell.columns - 1) ([] : Text)).length =
      cell.columns := by
    rw [List.length_cons, List.length_replicate]
    omega
  rw [text_from_cell, List.getD_append_right _ _ _ _ (by omega), hlength, Nat.add_sub_cancel_left]

theorem slot_before_cell (hj : j < skipped slots) :
    (expandRow (cell :: cells) slots).2.getD j 0 = slots.getD j 0 - 1 := by
  rw [slots_expandRow_cons, List.getD_append _ _ _ _ (by simpa [skipped] using hj), getD_covered hj]

theorem slot_from_cell :
    (expandRow (cell :: cells) slots).2.getD (skipped slots + j) 0 =
      (List.replicate cell.columns (cell.rows - 1) ++ (afterCell cell cells slots).2).getD j 0 := by
  rw [slots_expandRow_cons, List.getD_append_right _ _ _ _ (by simp [skipped])]
  congr 1
  simp [skipped]

theorem slot_in_cell (hj : j < cell.columns) :
    (expandRow (cell :: cells) slots).2.getD (skipped slots + j) 0 = cell.rows - 1 := by
  rw [slot_from_cell, List.getD_append _ _ _ _ (by simpa using hj), List.getD_eq_getElem?_getD,
    List.getElem?_replicate, if_pos hj]
  rfl

theorem slot_after_cell :
    (expandRow (cell :: cells) slots).2.getD (skipped slots + (cell.columns + j)) 0 =
      (afterCell cell cells slots).2.getD j 0 := by
  rw [slot_from_cell, List.getD_append_right _ _ _ _ (by simp), List.length_replicate,
    Nat.add_sub_cancel_left]

end Cell

/-! ## A row in the grid -/

theorem find?_of_forall_ne {ps : List Placed} {r c : Nat}
    (h : ∀ p ∈ ps, p.row = r → p.column ≠ c) :
    (ps.find? fun p => p.row == r && p.column == c) = none := by
  rw [List.find?_eq_none]
  intro p hp
  simpa using h p hp

theorem textAt_of_forall_ne {ps : List Placed} {r c : Nat}
    (h : ∀ p ∈ ps, p.row = r → p.column ≠ c) : textAt ps r c = [] := by
  rw [textAt, find?_of_forall_ne h]
  rfl

theorem textAt_cons_self {p : Placed} {ps : List Placed} :
    textAt (p :: ps) p.row p.column = p.cell.value := by
  simp [textAt]

theorem textAt_cons_of_ne {p : Placed} {ps : List Placed} {r c : Nat} (h : p.column ≠ c) :
    textAt (p :: ps) r c = textAt ps r c := by
  simp [textAt, h]

theorem lastOver_of_forall_not {ps : List Placed} {c : Nat} (h : ∀ p ∈ ps, ¬p.IsOver c) :
    lastOver ps c = none := by
  rw [lastOver, List.find?_eq_none]
  intro p hp
  simpa using h p (List.mem_reverse.mp hp)

theorem lastOver_cons (p : Placed) (ps : List Placed) (c : Nat) :
    lastOver (p :: ps) c = (lastOver ps c).or (if p.IsOver c then some p else none) := by
  rw [← List.singleton_append, lastOver_append]
  congr 1
  by_cases hover : p.IsOver c <;> simp [lastOver, hover]

/-- A row that is laid out from column `e` on as the grid has it, with the counts that follow. -/
structure RowFits (r e : Nat) (slots : List Nat) (placed : List Placed)
    (out : List Text × List Nat) : Prop where
  texts : ∀ j, out.1.getD j [] = textAt placed r (e + j)
  slots : ∀ j, out.2.getD j 0 = match lastOver placed (e + j) with
    | some p => p.cell.rows - 1
    | none => if j < out.1.length then slots.getD j 0 - 1 else slots.getD j 0

section Row

variable {r e : Nat} {ps : List Placed} {cell : Spanned} {cells : List Spanned} {slots : List Nat}

/-- The first cell of the row goes behind everything that is taken. -/
theorem exists_firstFree_eq (hleft : ∀ c < e, Taken ps r c)
    (hslots : ∀ j, Taken ps r (e + j) → 0 < slots.getD j 0) :
    ∃ d, firstFree ps r = e + d ∧ d ≤ skipped slots := by
  refine ⟨firstFree ps r - e, by have := le_firstFree hleft; omega, ?_⟩
  by_contra hlt
  have hpos := hslots (skipped slots) (taken_of_lt_firstFree (by omega))
  rw [getD_skipped] at hpos
  omega

/-- What the rest of the row can rely on once the first cell stands in its place. -/
theorem slots_after_cell (hfree : firstFree ps r = e + skipped slots)
    (hslots : ∀ j, Taken ps r (e + j) → 0 < slots.getD j 0) (j : Nat)
    (h : Taken (ps ++ [⟨r, firstFree ps r, cell⟩]) r (e + (skipped slots + cell.columns) + j)) :
    0 < (slots.drop (skipped slots + cell.columns)).getD j 0 := by
  rw [getD_drop]
  apply hslots
  obtain ⟨p, hp, hreach, hover⟩ := h
  rcases List.mem_append.mp hp with hp | hp
  · exact ⟨p, hp, hreach, by rwa [← Nat.add_assoc]⟩
  · rw [List.mem_singleton.mp hp] at hover
    simp only [Placed.IsOver, Placed.finish] at hover
    omega

theorem RowFits.nil (r e : Nat) (slots : List Nat) : RowFits r e slots [] (expandRow [] slots) where
  texts j := by
    rw [textAt_of_forall_ne (by simp), List.getD_eq_getElem?_getD]
    simp only [expandRow, List.getElem?_map]
    cases (slots.takeWhile (0 < ·))[j]? <;> rfl
  slots j := by
    simp only [expandRow, lastOver, List.reverse_nil, List.find?_nil, List.length_map]
    by_cases hj : j < (slots.takeWhile (0 < ·)).length
    · rw [if_pos hj, List.getD_append _ _ _ _ (by simpa using hj), getD_covered hj]
    · rw [if_neg hj, List.getD_append_right _ _ _ _ (by simpa using hj), List.length_map, getD_drop]
      congr 1
      omega

theorem RowFits.cons (hcell : cell.Extends) {placed : List Placed}
    (hplaced : ∀ p ∈ placed, e + (skipped slots + cell.columns) ≤ p.column)
    (h : RowFits r (e + (skipped slots + cell.columns))
      (slots.drop (skipped slots + cell.columns)) placed (afterCell cell cells slots)) :
    RowFits r e slots (⟨r, e + skipped slots, cell⟩ :: placed) (expandRow (cell :: cells) slots) := by
  have hcolumns := hcell.1
  have hafter : ∀ i, e + (skipped slots + (cell.columns + i)) =
      e + (skipped slots + cell.columns) + i := fun i => by omega
  -- The cells after the first one are all to the right of it.
  have htext : ∀ c < e + (skipped slots + cell.columns), textAt placed r c = [] :=
    fun c hc => textAt_of_forall_ne fun p hp _ => by have := hplaced p hp; omega
  have hlast : ∀ c < e + (skipped slots + cell.columns), lastOver placed c = none :=
    fun c hc => lastOver_of_forall_not fun p hp hover => by
      have := hplaced p hp
      unfold Placed.IsOver at hover
      omega
  have hover : ∀ c, (⟨r, e + skipped slots, cell⟩ : Placed).IsOver c ↔
      e + skipped slots ≤ c ∧ c < e + skipped slots + cell.columns := fun _ => Iff.rfl
  constructor
  · intro j
    rcases Nat.lt_or_ge j (skipped slots) with hj | hj
    · rw [text_before_cell hj, textAt_cons_of_ne (by simp only; omega), htext _ (by omega)]
    obtain ⟨i, rfl⟩ := Nat.exists_eq_add_of_le hj
    rcases Nat.eq_zero_or_pos i with rfl | hi
    · rw [Nat.add_zero, text_at_cell]
      exact (textAt_cons_self (p := ⟨r, e + skipped slots, cell⟩)).symm
    rw [textAt_cons_of_ne (by simp only; omega)]
    rcases Nat.lt_or_ge i cell.columns with hin | hin
    · rw [text_in_cell hi hin, htext _ (by omega)]
    obtain ⟨i, rfl⟩ := Nat.exists_eq_add_of_le hin
    rw [text_after_cell hcell, h.texts, hafter]
  · intro j
    rw [lastOver_cons, length_expandRow_cons hcell]
    rcases Nat.lt_or_ge j (skipped slots) with hj | hj
    · rw [slot_before_cell hj, hlast _ (by omega), if_neg (by rw [hover]; omega)]
      exact (if_pos (by omega)).symm
    obtain ⟨i, rfl⟩ := Nat.exists_eq_add_of_le hj
    rcases Nat.lt_or_ge i cell.columns with hin | hin
    · rw [slot_in_cell hin, hlast _ (by omega), if_pos (by rw [hover]; omega)]
      rfl
    obtain ⟨i, rfl⟩ := Nat.exists_eq_add_of_le hin
    have hnot : ¬(⟨r, e + skipped slots, cell⟩ : Placed).IsOver
        (e + (skipped slots + (cell.columns + i))) := by rw [hover]; omega
    rw [slot_after_cell, h.slots, if_neg hnot, Option.or_none, hafter, getD_drop]
    have hlength : skipped slots + (cell.columns + i) <
        skipped slots + (cell.columns + (afterCell cell cells slots).1.length) ↔
          i < (afterCell cell cells slots).1.length := by omega
    simp only [Nat.add_assoc, hlength]

/-- A row is laid out as the grid has it if no count is left at the columns of its cells. -/
theorem rowFits_of_free (hcells : ∀ cell ∈ cells, cell.Extends) (hleft : ∀ c < e, Taken ps r c)
    (hslots : ∀ j, Taken ps r (e + j) → 0 < slots.getD j 0)
    (hfree : ∀ p ∈ placeRow r ps cells, slots.getD (p.column - e) 0 = 0) :
    RowFits r e slots (placeRow r ps cells) (expandRow cells slots) := by
  induction cells generalizing ps e slots with
  | nil => exact .nil r e slots
  | cons cell cells ih =>
    rw [List.forall_mem_cons] at hcells
    obtain ⟨d, hd, hle⟩ := exists_firstFree_eq hleft hslots
    rw [placeRow, List.forall_mem_cons] at hfree
    have hskip : skipped slots = d := by
      have hzero := hfree.1
      rw [hd, Nat.add_sub_cancel_left] at hzero
      rcases Nat.lt_or_eq_of_le hle with hlt | heq
      · have hpos := getD_pos_of_lt_skipped hlt
        omega
      · exact heq.symm
    subst hskip
    have hfinish : ∀ c < e + (skipped slots + cell.columns),
        Taken (ps ++ [⟨r, firstFree ps r, cell⟩]) r c := fun c hc =>
      taken_of_lt_finish hcells.1.2 (by simp only [Placed.finish]; omega)
    have hright := le_column_of_mem_placeRow hcells.2 hfinish
    have hrest := ih hcells.2 hfinish (slots_after_cell hd hslots) fun p hp => by
      have hzero := hfree.2 p hp
      have hpast := hright p hp
      rw [getD_drop, show skipped slots + cell.columns +
        (p.column - (e + (skipped slots + cell.columns))) = p.column - e by omega]
      exact hzero
    rw [placeRow]
    simp only [hd] at hright hrest ⊢
    exact .cons hcells.1 hright hrest

/-- If a row shows its cells where the grid has them, no count was left at their columns. -/
theorem free_of_texts (hcells : ∀ cell ∈ cells, cell.Extends)
    (hvalues : ∀ cell ∈ cells, cell.value ≠ []) (hleft : ∀ c < e, Taken ps r c)
    (hslots : ∀ j, Taken ps r (e + j) → 0 < slots.getD j 0)
    (htexts : ∀ j, (expandRow cells slots).1.getD j [] = textAt (placeRow r ps cells) r (e + j)) :
    ∀ p ∈ placeRow r ps cells, slots.getD (p.column - e) 0 = 0 := by
  induction cells generalizing ps e slots with
  | nil => simp [placeRow]
  | cons cell cells ih =>
    rw [List.forall_mem_cons] at hcells hvalues
    obtain ⟨d, hd, hle⟩ := exists_firstFree_eq hleft hslots
    rw [placeRow] at htexts
    -- A count that is left would put the cell further to the right.
    have hskip : skipped slots = d := by
      rcases Nat.lt_or_eq_of_le hle with hlt | heq
      · have hshown := htexts d
        rw [text_before_cell hlt, ← hd, textAt_cons_self] at hshown
        exact absurd hshown.symm hvalues.1
      · exact heq.symm
    subst hskip
    have hfinish : ∀ c < e + (skipped slots + cell.columns),
        Taken (ps ++ [⟨r, firstFree ps r, cell⟩]) r c := fun c hc =>
      taken_of_lt_finish hcells.1.2 (by simp only [Placed.finish]; omega)
    have hright := le_column_of_mem_placeRow hcells.2 hfinish
    refine List.forall_mem_cons.mpr ⟨?_, fun p hp => ?_⟩
    · rw [hd, Nat.add_sub_cancel_left, getD_skipped]
    · have hrest := ih hcells.2 hvalues.2 hfinish (slots_after_cell hd hslots) (fun j => by
        have hshown := htexts (skipped slots + (cell.columns + j))
        rw [text_after_cell hcells.1, textAt_cons_of_ne (by simp only [hd]; have := hcells.1.1; omega)]
          at hshown
        rw [show e + (skipped slots + cell.columns) + j = e + (skipped slots + (cell.columns + j)) by
          omega, ← hshown]
        rfl) p hp
      have hpast := hright p hp
      rw [getD_drop, show skipped slots + cell.columns +
        (p.column - (e + (skipped slots + cell.columns))) = p.column - e by omega] at hrest
      exact hrest

end Row

/-! ## All rows -/

/-- The value in column `c` of row `r`, nothing if the row ends before. -/
def entry (out : List (Row Text)) (r c : Nat) : Text :=
  ((out[r]?).map (·.cells.getD c [])).getD []

/-- The number of rows between `s` and `r` that are laid out past column `c`. -/
def passed (out : List (Row Text)) (s r c : Nat) : Nat :=
  ((out.take r).drop (s + 1)).countP fun row => decide (c < row.cells.length)

/-- Where a cell begins, enough rows are laid out to bring the count of the last cell above it down
to zero. -/
def Spent (ps : List Placed) (out : List (Row Text)) (p : Placed) : Prop :=
  ∀ q ∈ lastOver (ps.filter (·.row < p.row)) p.column,
    q.cell.rows - 1 ≤ passed out q.row p.row p.column

instance (ps : List Placed) (out : List (Row Text)) (p : Placed) : Decidable (Spent ps out p) :=
  inferInstanceAs (Decidable (∀ q ∈ (_ : Option Placed), _))

theorem passed_le (out : List (Row Text)) (s r c : Nat) : passed out s r c ≤ r - (s + 1) := by
  refine Nat.le_trans List.countP_le_length ?_
  rw [List.length_drop, List.length_take]
  omega

theorem passed_self (out : List (Row Text)) (s c : Nat) : passed out s (s + 1) c = 0 :=
  Nat.le_zero.mp (Nat.le_trans (passed_le out s (s + 1) c) (by omega))

theorem passed_succ {out : List (Row Text)} {s r : Nat} {row : Row Text} (hrow : out[r]? = some row)
    (hs : s < r) (c : Nat) :
    passed out s (r + 1) c = passed out s r c + if c < row.cells.length then 1 else 0 := by
  obtain ⟨hr, _⟩ := List.getElem?_eq_some_iff.mp hrow
  have htake : out.take (r + 1) = out.take r ++ [row] := by rw [List.take_add_one, hrow]; rfl
  have hlength : s + 1 ≤ (out.take r).length := by rw [List.length_take]; omega
  unfold passed
  rw [htake, List.drop_append_of_le_length hlength, List.countP_append, List.countP_singleton]
  simp only [decide_eq_true_eq]

theorem textAt_append_left {ps qs : List Placed} {r : Nat} (h : ∀ p ∈ ps, p.row ≠ r) (c : Nat) :
    textAt (ps ++ qs) r c = textAt qs r c := by
  rw [textAt, List.find?_append, find?_of_forall_ne fun p hp heq => absurd heq (h p hp),
    Option.none_or, textAt]

theorem textAt_append_right {ps qs : List Placed} {r : Nat} (h : ∀ q ∈ qs, q.row ≠ r) (c : Nat) :
    textAt (ps ++ qs) r c = textAt ps r c := by
  rw [textAt, List.find?_append, find?_of_forall_ne fun q hq heq => absurd heq (h q hq),
    Option.or_none, textAt]

/-- The rows from `r` on remain to be laid out, with the counts that the rows before have left: the
last cell over a column counts, less the rows that were laid out past the column since. -/
structure Counted (all : List Placed) (out : List (Row Text)) (r : Nat) (ps : List Placed)
    (rows : List (Row Spanned)) (slots : List Nat) : Prop where
  grid : all = placeRows r ps rows
  layout : out.drop r = (expandRows rows slots).1
  above : ∀ p ∈ ps, p.row < r
  count : ∀ c, slots.getD c 0 = match lastOver ps c with
    | some p => p.cell.rows - 1 - passed out p.row r c
    | none => 0

namespace Counted

variable {all : List Placed} {out : List (Row Text)} {r : Nat} {ps : List Placed} {row : Row Spanned}
  {rows : List (Row Spanned)} {slots : List Nat}

theorem exists_all_eq (h : Counted all out r ps rows slots) :
    ∃ later, all = ps ++ later ∧ ∀ p ∈ later, r ≤ p.row := by
  rw [h.grid]
  exact exists_placeRows_eq r ps rows

/-- A column that is taken is counted as covered. -/
theorem slot_pos_of_taken (h : Counted all out r ps rows slots) (hordered : all.Pairwise Before)
    (hclear : NoOverlap all) {c : Nat} (htaken : Taken ps r c) : 0 < slots.getD c 0 := by
  obtain ⟨later, hall, _⟩ := h.exists_all_eq
  have hps : ∀ p ∈ ps, p ∈ all := fun p hp => hall ▸ List.mem_append_left _ hp
  rw [hall] at hordered
  obtain ⟨p, hlast, hreach⟩ := htaken.exists_last (List.pairwise_append.mp hordered).1
    (fun p hp q hq => hclear p (hps p hp) q (hps q hq)) fun p hp => Nat.le_of_lt (h.above p hp)
  have hpassed := passed_le out p.row r c
  have hlt := hreach.2
  have habove := h.above p (isOver_of_lastOver hlast).1
  rw [h.count, hlast]
  show 0 < p.cell.rows - 1 - passed out p.row r c
  omega

theorem spent_iff (h : Counted all out r ps rows slots) {p : Placed} (hp : p.row = r) :
    Spent all out p ↔ slots.getD p.column 0 = 0 := by
  obtain ⟨later, hall, hlater⟩ := h.exists_all_eq
  have hbefore : all.filter (·.row < r) = ps := by
    rw [hall, List.filter_append, List.filter_eq_self.mpr (by simpa using h.above),
      List.filter_eq_nil_iff.mpr (by simpa using hlater), List.append_nil]
  rw [Spent, hp, hbefore, h.count]
  cases lastOver ps p.column with
  | none => simp
  | some q =>
    simp only [Option.mem_some_iff, forall_eq']
    omega

section Next

variable (h : Counted all out r ps (row :: rows) slots)

include h

theorem row_eq : out[r]? = some ⟨row.header, (expandRow row.cells slots).1⟩ := by
  have hlayout := h.layout
  rw [← Nat.add_zero r, ← List.getElem?_drop, hlayout]
  rfl

theorem entry_eq (c : Nat) : entry out r c = (expandRow row.cells slots).1.getD c [] := by
  rw [entry, h.row_eq]
  rfl

theorem textAt_eq (c : Nat) : textAt all r c = textAt (placeRow r ps row.cells) r c := by
  obtain ⟨later, hall, hlater⟩ := exists_placeRows_eq (r + 1) (ps ++ placeRow r ps row.cells) rows
  rw [h.grid, placeRows, hall, textAt_append_right fun p hp => Nat.ne_of_gt (hlater p hp),
    textAt_append_left fun p hp => Nat.ne_of_lt (h.above p hp)]

/-- A row that is laid out as the grid has it leaves the counts as they should be. -/
theorem next (hfits : RowFits r 0 slots (placeRow r ps row.cells) (expandRow row.cells slots)) :
    Counted all out (r + 1) (ps ++ placeRow r ps row.cells) rows (expandRow row.cells slots).2 where
  grid := h.grid
  layout := by rw [← List.tail_drop, h.layout]; rfl
  above p hp := by
    rcases List.mem_append.mp hp with hp | hp
    · exact Nat.lt_succ_of_lt (h.above p hp)
    · rw [row_of_mem_placeRow p hp]
      exact Nat.lt_succ_self r
  count c := by
    rw [hfits.slots, lastOver_append, Nat.zero_add]
    cases hplaced : lastOver (placeRow r ps row.cells) c with
    | some p =>
      rw [Option.some_or]
      show p.cell.rows - 1 = p.cell.rows - 1 - passed out p.row (r + 1) c
      rw [row_of_mem_placeRow p (isOver_of_lastOver hplaced).1, passed_self, Nat.sub_zero]
    | none =>
      rw [Option.none_or]
      show (if _ then _ else _) = _
      rw [h.count]
      cases hlast : lastOver ps c with
      | none => simp
      | some p =>
        show _ = p.cell.rows - 1 - passed out p.row (r + 1) c
        rw [passed_succ h.row_eq (h.above p (isOver_of_lastOver hlast).1), ← Nat.sub_sub]
        split <;> rfl

end Next

end Counted

section Rows

variable {all : List Placed} {out : List (Row Text)} {r : Nat} {ps : List Placed}
  {rows : List (Row Spanned)} {slots : List Nat}

theorem texts_of_spent (hordered : all.Pairwise Before) (hclear : NoOverlap all)
    (hextends : ∀ row ∈ rows, ∀ cell ∈ row.cells, cell.Extends)
    (h : Counted all out r ps rows slots) (hspent : ∀ p ∈ all, r ≤ p.row → Spent all out p) :
    ∀ i, r ≤ i → ∀ c, entry out i c = textAt all i c := by
  induction rows generalizing r ps slots with
  | nil =>
    intro i hi c
    have hend : out[i]? = none := List.getElem?_eq_none
      (Nat.le_trans (List.drop_eq_nil_iff.mp h.layout) hi)
    rw [entry, hend, h.grid, placeRows, textAt_of_forall_ne fun p hp heq => ?_]
    · rfl
    · have := h.above p hp
      omega
  | cons row rows ih =>
    rw [List.forall_mem_cons] at hextends
    have hmem : ∀ p ∈ placeRow r ps row.cells, p ∈ all := fun p hp => by
      obtain ⟨_, hall, _⟩ := exists_placeRows_eq (r + 1) (ps ++ placeRow r ps row.cells) rows
      rw [h.grid, placeRows, hall]
      exact List.mem_append_left _ (List.mem_append_right _ hp)
    have hfits := rowFits_of_free (e := 0) hextends.1 (by simp)
      (fun j htaken => h.slot_pos_of_taken hordered hclear (by rwa [Nat.zero_add] at htaken))
      fun p hp => by
        have hrow := row_of_mem_placeRow p hp
        exact (h.spent_iff hrow).mp (hspent p (hmem p hp) (Nat.le_of_eq hrow.symm))
    intro i hi c
    rcases Nat.eq_or_lt_of_le hi with rfl | hlt
    · rw [h.entry_eq, h.textAt_eq, hfits.texts, Nat.zero_add]
    · exact ih hextends.2 (h.next hfits) (fun p hp hle => hspent p hp (Nat.le_of_succ_le hle)) i hlt c

theorem spent_of_texts (hordered : all.Pairwise Before) (hclear : NoOverlap all)
    (hextends : ∀ row ∈ rows, ∀ cell ∈ row.cells, cell.Extends)
    (hvalues : ∀ row ∈ rows, ∀ cell ∈ row.cells, cell.value ≠ [])
    (h : Counted all out r ps rows slots)
    (htexts : ∀ i, r ≤ i → ∀ c, entry out i c = textAt all i c) :
    ∀ p ∈ all, r ≤ p.row → Spent all out p := by
  induction rows generalizing r ps slots with
  | nil =>
    intro p hp hle
    rw [h.grid, placeRows] at hp
    have := h.above p hp
    omega
  | cons row rows ih =>
    rw [List.forall_mem_cons] at hextends hvalues
    have hslots : ∀ j, Taken ps r (0 + j) → 0 < slots.getD j 0 := fun j htaken =>
      h.slot_pos_of_taken hordered hclear (by rwa [Nat.zero_add] at htaken)
    have hfree := free_of_texts hextends.1 hvalues.1 (by simp) hslots fun j => by
      rw [← h.entry_eq, htexts r (Nat.le_refl r), h.textAt_eq, Nat.zero_add]
    have hnext := h.next (rowFits_of_free hextends.1 (by simp) hslots hfree)
    intro p hp hle
    rcases Nat.eq_or_lt_of_le hle with heq | hlt
    · obtain ⟨later, hall, hlater⟩ := hnext.exists_all_eq
      rw [hall, List.append_assoc, List.mem_append, List.mem_append] at hp
      rcases hp with hp | hp | hp
      · have := h.above p hp
        omega
      · exact (h.spent_iff heq.symm).mpr (hfree p hp)
      · have := hlater p hp
        omega
    · exact ih hextends.2 hvalues.2 hnext (fun i hi => htexts i (Nat.le_of_succ_le hi)) p hp hlt

theorem counted_start (rows : List (Row Spanned)) :
    Counted (grid rows) (expandRows rows []).1 0 [] rows [] where
  grid := rfl
  layout := rfl
  above := by simp
  count := by simp [lastOver]

end Rows

/-! ## Tables -/

/-- A span that is read is at least one. -/
theorem span_pos {raw : Option Text} {n : Nat} (h : span raw = .ok n) : 0 < n := by
  unfold span at h
  cases hread : readOptional raw with
  | error size => rw [hread] at h; cases h
  | ok k =>
    rw [hread] at h
    cases h
    exact Nat.lt_of_lt_of_le Nat.zero_lt_one (Nat.le_max_right ..)

theorem extends_of_spanned {cell : Cell} {spanned' : Spanned}
    (h : (spanned cell).outcome = .ok spanned') : spanned'.Extends := by
  simp only [spanned, bind_outcome_eq_ok_iff, ofSized_outcome_eq_ok_iff] at h
  obtain ⟨value, _, columns, hcolumns, rows, hrows, heq⟩ := h
  cases heq
  exact ⟨span_pos hcolumns, span_pos hrows⟩

/-- Every cell of rows that were read has an extent. -/
theorem extends_of_spannedRow {table : List (Row Cell)} {rows : List (Row Spanned)}
    (h : (Traced.sequence (table.map spannedRow)).outcome = .ok rows) :
    ∀ row ∈ rows, ∀ cell ∈ row.cells, cell.Extends := by
  intro row hrow cell hcell
  obtain ⟨_, hsource, hrow⟩ := exists_of_mem_sequence h hrow
  obtain ⟨source, _, rfl⟩ := List.mem_map.mp hsource
  obtain ⟨cells, hcells, heq⟩ := bind_outcome_eq_ok_iff.mp hrow
  cases heq
  obtain ⟨_, hsource, hcell⟩ := exists_of_mem_sequence hcells hcell
  obtain ⟨source, _, rfl⟩ := List.mem_map.mp hsource
  exact extends_of_spanned hcell

/-- In a table without overlaps every cell stands where the table model has it, and all else is
empty, as long as the counts are used up where cells begin; and if no cell is blank, then only so. -/
theorem cells_stand_in_grid {table : List (Row Cell)} {rows : List (Row Spanned)}
    (hrows : (Traced.sequence (table.map spannedRow)).outcome = .ok rows)
    (hclear : NoOverlap (grid rows)) :
    ((∀ p ∈ grid rows, Spent (grid rows) (expandRows rows []).1 p) →
      ∀ r c, entry (expandRows rows []).1 r c = textAt (grid rows) r c) ∧
    ((∀ row ∈ rows, ∀ cell ∈ row.cells, cell.value ≠ []) →
      (∀ r c, entry (expandRows rows []).1 r c = textAt (grid rows) r c) →
        ∀ p ∈ grid rows, Spent (grid rows) (expandRows rows []).1 p) := by
  have hextends := extends_of_spannedRow hrows
  have hordered : (grid rows).Pairwise Before :=
    placeRows_pairwise hextends List.Pairwise.nil (by simp)
  have hstart := counted_start rows
  constructor
  · intro hspent r
    exact texts_of_spent hordered hclear hextends hstart (fun p hp _ => hspent p hp) r (Nat.zero_le r)
  · intro hvalues htexts p hp
    exact spent_of_texts hordered hclear hextends hvalues hstart (fun r _ => htexts r) p hp
      (Nat.zero_le p.row)

/-- A cell over two rows beside one over two columns. -/
theorem neighbours_stand_in_grid :
    let rows : List (Row Spanned) := [⟨false, [⟨['A'], 1, 2⟩, ⟨['B'], 2, 1⟩]⟩,
      ⟨false, [⟨['C'], 1, 1⟩, ⟨['D'], 1, 1⟩]⟩, ⟨false, [⟨['E'], 1, 1⟩, ⟨['F'], 1, 1⟩]⟩]
    NoOverlap (grid rows) ∧ textAt (grid rows) 1 1 = ['C'] ∧
      ∀ r c, entry (expandRows rows []).1 r c = textAt (grid rows) r c := by
  intro rows
  let table : List (Row Cell) := [
    ⟨false, [⟨none, some ['2'], Traced.pure ['A']⟩, ⟨some ['2'], none, Traced.pure ['B']⟩]⟩,
    ⟨false, [⟨none, none, Traced.pure ['C']⟩, ⟨none, none, Traced.pure ['D']⟩]⟩,
    ⟨false, [⟨none, none, Traced.pure ['E']⟩, ⟨none, none, Traced.pure ['F']⟩]⟩]
  have hrows : (Traced.sequence (table.map spannedRow)).outcome = .ok rows := rfl
  have hclear : NoOverlap (grid rows) := by decide
  exact ⟨hclear, by decide, (cells_stand_in_grid hrows hclear).1 (by decide)⟩

/-- The cell `C` covers its column in the row of `X` as well, but that row ends before it.  So its
count is still there in the last row and moves `R` out of its column. -/
theorem short_row_moves_cell :
    let rows : List (Row Spanned) := [⟨false, [⟨['A'], 1, 1⟩, ⟨['B'], 1, 1⟩, ⟨['C'], 1, 2⟩]⟩,
      ⟨false, [⟨['X'], 1, 1⟩]⟩, ⟨false, [⟨['P'], 1, 1⟩, ⟨['Q'], 1, 1⟩, ⟨['R'], 1, 1⟩]⟩]
    NoOverlap (grid rows) ∧ textAt (grid rows) 2 2 = ['R'] ∧
      entry (expandRows rows []).1 2 2 = [] ∧ entry (expandRows rows []).1 2 3 = ['R'] := by
  decide

end Hypermark.Table
