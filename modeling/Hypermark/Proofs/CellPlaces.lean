import Mathlib.Data.List.Basic
import Hypermark.Table.Grid

/-!
# Where the cells of a table stand

The table model gives every cell a place, row by row and from left to right: a cell takes the first
column of its row that no cell placed before it reaches, be it one of the same row or one from above
that goes on over this row.

* `not_taken_firstFree`, `taken_of_lt_firstFree`: the first free column is that column.
* `placeRows_pairwise`: cells are placed in reading order, those of one row side by side.
* `Taken.exists_last`: without overlap a column is taken by the last cell over it.
-/

namespace Hypermark.Table

/-- A cell in its place, given by the first row and the first column that it covers. -/
structure Placed where
  row : Nat
  column : Nat
  cell : Spanned
deriving DecidableEq, Repr

namespace Placed

/-- The column after the last one of the cell. -/
def finish (p : Placed) : Nat := p.column + p.cell.columns

/-- The cell goes down as far as row `r`, or further. -/
def Reaches (p : Placed) (r : Nat) : Prop := p.row ≤ r ∧ r < p.row + p.cell.rows

/-- Column `c` is one of the columns of the cell. -/
def IsOver (p : Placed) (c : Nat) : Prop := p.column ≤ c ∧ c < p.finish

instance (p : Placed) (r : Nat) : Decidable (p.Reaches r) := inferInstanceAs (Decidable (_ ∧ _))

instance (p : Placed) (c : Nat) : Decidable (p.IsOver c) := inferInstanceAs (Decidable (_ ∧ _))

/-- The cells have no column in common. -/
def Apart (p q : Placed) : Prop := p.finish ≤ q.column ∨ q.finish ≤ p.column

instance (p q : Placed) : Decidable (p.Apart q) := inferInstanceAs (Decidable (_ ∨ _))

end Placed

/-! ## Placing cells -/

/-- Column `c` of row `r` is taken by a cell. -/
def Taken (ps : List Placed) (r c : Nat) : Prop := ∃ p ∈ ps, p.Reaches r ∧ p.IsOver c

instance (ps : List Placed) (r c : Nat) : Decidable (Taken ps r c) :=
  inferInstanceAs (Decidable (∃ p ∈ ps, _))

def rightEdge (ps : List Placed) : Nat := (ps.map Placed.finish).foldl max 0

/-- The leftmost column of row `r` that is not taken. -/
def firstFree (ps : List Placed) (r : Nat) : Nat :=
  ((List.range (rightEdge ps)).find? fun c => !decide (Taken ps r c)).getD (rightEdge ps)

/-- The places of the cells of row `r` after the cells `ps`. -/
def placeRow (r : Nat) (ps : List Placed) : List Spanned → List Placed
  | [] => []
  | cell :: cells =>
    let p : Placed := ⟨r, firstFree ps r, cell⟩
    p :: placeRow r (ps ++ [p]) cells

/-- The places of all cells, row `r` being the first one after the cells `ps`. -/
def placeRows (r : Nat) (ps : List Placed) : List (Row Spanned) → List Placed
  | [] => ps
  | row :: rows => placeRows (r + 1) (ps ++ placeRow r ps row.cells) rows

/-- The places of the cells of a table. -/
def grid (rows : List (Row Spanned)) : List Placed := placeRows 0 [] rows

/-- No cell reaches with its columns into a cell from above that goes on over its row. -/
def NoOverlap (ps : List Placed) : Prop :=
  ∀ p ∈ ps, ∀ q ∈ ps, p.row < q.row → p.Reaches q.row → p.Apart q

instance (ps : List Placed) : Decidable (NoOverlap ps) :=
  inferInstanceAs (Decidable (∀ p ∈ ps, ∀ q ∈ ps, _))

/-- What the grid shows in column `c` of row `r`: the value of the cell that begins there, and
nothing where a cell only goes on or where there is none. -/
def textAt (ps : List Placed) (r c : Nat) : Text :=
  ((ps.find? fun p => p.row == r && p.column == c).map (·.cell.value)).getD []

/-- The last of the cells that have the column `c`. -/
def lastOver (ps : List Placed) (c : Nat) : Option Placed :=
  ps.reverse.find? fun p => decide (p.IsOver c)

/-! ## The first free column -/

theorem finish_le_rightEdge {ps : List Placed} {p : Placed} (hp : p ∈ ps) :
    p.finish ≤ rightEdge ps := by
  have hmono : ∀ (ns : List Nat) (a : Nat), a ≤ ns.foldl max a ∧ ∀ n ∈ ns, n ≤ ns.foldl max a := by
    intro ns
    induction ns with
    | nil => exact fun a => ⟨Nat.le_refl a, by simp⟩
    | cons n ns ih =>
      intro a
      obtain ⟨hstart, hmem⟩ := ih (max a n)
      rw [List.foldl_cons]
      refine ⟨by omega, fun k hk => ?_⟩
      rcases List.mem_cons.mp hk with rfl | hk
      · omega
      · exact hmem k hk
  exact (hmono _ 0).2 _ (List.mem_map_of_mem hp)

theorem not_taken_rightEdge (ps : List Placed) (r : Nat) : ¬Taken ps r (rightEdge ps) := by
  rintro ⟨p, hp, _, _, hlt⟩
  have hle := finish_le_rightEdge hp
  omega

theorem not_taken_firstFree (ps : List Placed) (r : Nat) : ¬Taken ps r (firstFree ps r) := by
  unfold firstFree
  cases hfind : (List.range (rightEdge ps)).find? fun c => !decide (Taken ps r c) with
  | none => exact not_taken_rightEdge ps r
  | some c => simpa using List.find?_some hfind

theorem taken_of_lt_firstFree {ps : List Placed} {r c : Nat} (hc : c < firstFree ps r) :
    Taken ps r c := by
  unfold firstFree at hc
  cases hfind : (List.range (rightEdge ps)).find? fun c => !decide (Taken ps r c) with
  | none =>
    rw [hfind, Option.getD_none] at hc
    simpa using List.find?_eq_none.mp hfind c (List.mem_range.mpr hc)
  | some k =>
    rw [hfind, Option.getD_some] at hc
    simpa using (List.find?_range_eq_some.mp hfind).2.2 c hc

theorem le_firstFree {ps : List Placed} {r e : Nat} (h : ∀ c < e, Taken ps r c) :
    e ≤ firstFree ps r := by
  by_contra hlt
  exact not_taken_firstFree ps r (h _ (by omega))

/-! ## Cells in reading order -/

theorem row_of_mem_placeRow {r : Nat} {ps : List Placed} {cells : List Spanned} :
    ∀ p ∈ placeRow r ps cells, p.row = r := by
  induction cells generalizing ps with
  | nil => simp [placeRow]
  | cons cell cells ih => exact List.forall_mem_cons.mpr ⟨rfl, ih⟩

/-- The extent of a cell is at least one row and one column. -/
def Spanned.Extends (cell : Spanned) : Prop := 0 < cell.columns ∧ 0 < cell.rows

/-- A row is filled from the left, so after a cell everything up to its last column is taken. -/
theorem taken_of_lt_finish {ps : List Placed} {r c : Nat} {cell : Spanned} (hcell : 0 < cell.rows)
    (hc : c < (⟨r, firstFree ps r, cell⟩ : Placed).finish) :
    Taken (ps ++ [⟨r, firstFree ps r, cell⟩]) r c := by
  by_cases hlt : c < firstFree ps r
  · obtain ⟨p, hp, h⟩ := taken_of_lt_firstFree hlt
    exact ⟨p, List.mem_append_left _ hp, h⟩
  · refine ⟨⟨r, firstFree ps r, cell⟩, List.mem_append_right _ (List.mem_singleton_self _), ?_, ?_⟩
    · exact ⟨Nat.le_refl r, Nat.lt_add_of_pos_right hcell⟩
    · exact ⟨Nat.le_of_not_lt hlt, hc⟩

/-- Cells go to the right of what is filled. -/
theorem le_column_of_mem_placeRow {r e : Nat} {ps : List Placed} {cells : List Spanned}
    (hcells : ∀ cell ∈ cells, cell.Extends) (h : ∀ c < e, Taken ps r c) :
    ∀ p ∈ placeRow r ps cells, e ≤ p.column := by
  induction cells generalizing ps e with
  | nil => simp [placeRow]
  | cons cell cells ih =>
    rw [List.forall_mem_cons] at hcells
    refine List.forall_mem_cons.mpr ⟨le_firstFree h, fun p hp => ?_⟩
    have hnext := ih hcells.2 (fun c hc => taken_of_lt_finish hcells.1.2 hc) p hp
    have hfree := le_firstFree h
    simp only [Placed.finish] at hnext
    omega

theorem placeRow_pairwise {r : Nat} {ps : List Placed} {cells : List Spanned}
    (hcells : ∀ cell ∈ cells, cell.Extends) :
    (placeRow r ps cells).Pairwise fun p q => p.finish ≤ q.column := by
  induction cells generalizing ps with
  | nil => exact List.Pairwise.nil
  | cons cell cells ih =>
    rw [List.forall_mem_cons] at hcells
    exact List.Pairwise.cons
      (le_column_of_mem_placeRow hcells.2 fun c hc => taken_of_lt_finish hcells.1.2 hc)
      (ih hcells.2)

/-- One cell comes before another in reading order. -/
def Before (p q : Placed) : Prop := p.row < q.row ∨ p.row = q.row ∧ p.finish ≤ q.column

theorem placeRows_pairwise {r : Nat} {ps : List Placed} {rows : List (Row Spanned)}
    (hrows : ∀ row ∈ rows, ∀ cell ∈ row.cells, cell.Extends) (hps : ps.Pairwise Before)
    (habove : ∀ p ∈ ps, p.row < r) : (placeRows r ps rows).Pairwise Before := by
  induction rows generalizing r ps with
  | nil => exact hps
  | cons row rows ih =>
    rw [List.forall_mem_cons] at hrows
    refine ih hrows.2 ?_ fun p hp => ?_
    · refine List.pairwise_append.mpr ⟨hps, ?_, fun p hp q hq => .inl ?_⟩
      · refine (placeRow_pairwise hrows.1).imp_of_mem fun hp hq hpq => .inr ⟨?_, hpq⟩
        rw [row_of_mem_placeRow _ hp, row_of_mem_placeRow _ hq]
      · rw [row_of_mem_placeRow q hq]
        exact habove p hp
    · rcases List.mem_append.mp hp with hp | hp
      · exact Nat.lt_succ_of_lt (habove p hp)
      · rw [row_of_mem_placeRow p hp]
        exact Nat.lt_succ_self r

/-- Placing further rows only adds cells, all of them in these rows. -/
theorem exists_placeRows_eq (r : Nat) (ps : List Placed) (rows : List (Row Spanned)) :
    ∃ later, placeRows r ps rows = ps ++ later ∧ ∀ p ∈ later, r ≤ p.row := by
  induction rows generalizing r ps with
  | nil => exact ⟨[], (List.append_nil ps).symm, by simp⟩
  | cons row rows ih =>
    obtain ⟨later, heq, hlater⟩ := ih (r + 1) (ps ++ placeRow r ps row.cells)
    refine ⟨placeRow r ps row.cells ++ later, by rw [placeRows, heq, List.append_assoc], ?_⟩
    intro p hp
    rcases List.mem_append.mp hp with hp | hp
    · exact Nat.le_of_eq (row_of_mem_placeRow p hp).symm
    · exact Nat.le_of_succ_le (hlater p hp)

/-! ## The last cell over a column -/

theorem lastOver_append (ps qs : List Placed) (c : Nat) :
    lastOver (ps ++ qs) c = (lastOver qs c).or (lastOver ps c) := by
  rw [lastOver, List.reverse_append, List.find?_append]
  rfl

theorem isOver_of_lastOver {ps : List Placed} {c : Nat} {p : Placed} (h : lastOver ps c = some p) :
    p ∈ ps ∧ p.IsOver c := by
  unfold lastOver at h
  exact ⟨List.mem_reverse.mp (List.mem_of_find?_eq_some h), by simpa using List.find?_some h⟩

/-- Of several cells over a column only the last can go on, since cells do not overlap. -/
theorem Taken.exists_last {ps : List Placed} {r c : Nat} (h : Taken ps r c)
    (hpairwise : ps.Pairwise Before) (hclear : NoOverlap ps) (habove : ∀ p ∈ ps, p.row ≤ r) :
    ∃ p, lastOver ps c = some p ∧ p.Reaches r := by
  obtain ⟨q, hq, hreach, hover⟩ := h
  cases hlast : lastOver ps c with
  | none =>
    unfold lastOver at hlast
    have hnone := List.find?_eq_none.mp hlast q (List.mem_reverse.mpr hq)
    exact absurd hover (by simpa using hnone)
  | some p =>
    refine ⟨p, rfl, ?_⟩
    obtain ⟨hp, hpover⟩ := isOver_of_lastOver hlast
    unfold lastOver at hlast
    obtain ⟨_, after, before, hsplit, hafter⟩ := List.find?_eq_some_iff_append.mp hlast
    rw [List.reverse_eq_iff, List.reverse_append, List.reverse_cons, List.append_assoc] at hsplit
    rw [hsplit] at hq hpairwise
    rcases List.mem_append.mp hq with hq | hq
    · -- An earlier cell that goes on would overlap the last one.
      have hbefore : Before q p := (List.pairwise_append.mp hpairwise).2.2 q hq p (by simp)
      have hrow := habove p hp
      unfold Placed.IsOver at hover hpover
      rcases hbefore with hlt | ⟨_, hle⟩
      · have hmeet : q.Reaches p.row := ⟨Nat.le_of_lt hlt, Nat.lt_of_le_of_lt hrow hreach.2⟩
        have hqmem : q ∈ ps := by rw [hsplit]; exact List.mem_append_left _ hq
        rcases hclear q hqmem p hp hlt hmeet with hapart | hapart <;> omega
      · omega
    · rcases List.mem_append.mp hq with hq | hq
      · rw [List.mem_singleton.mp hq] at hreach
        exact hreach
      · have hnot := hafter q (List.mem_reverse.mp hq)
        exact absurd hover (by simpa using hnot)

end Hypermark.Table
