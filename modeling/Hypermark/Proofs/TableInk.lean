import Mathlib.Algebra.BigOperators.Group.Finset.Basic
import Mathlib.Algebra.GroupWithZero.Nat
import Hypermark.Proofs.RowsRead

/-!
# The ink of a table

A table shows the ink of its cells, down the columns of each row, and puts none in besides.  What a
group of lines has of it is counted along the lines first and then down the columns, each of which
shows one cell or nothing.

* `countP_group`: the group of a row has the ink of its cells.
* `countP_table`: a table has the ink of all its cells.
-/

namespace Hypermark

open Text Markdown

namespace Table

/-- Layout of tables neither adds nor removes a character of the kind `p`. -/
structure Ink (p : Char → Bool) : Prop extends Hypermark.Ink p where
  bar : p '|' = false
  slash : p '\\' = false

/-! ## Sums -/

/-- A sum over all columns, of which only some count, as a sum over these. -/
theorem sum_columns {n : Nat} {columns : List Nat} {f : Nat → Nat}
    (hordered : columns.Pairwise (· < ·)) (hwithin : ∀ j ∈ columns, j < n)
    (hblank : ∀ j, j ∉ columns → f j = 0) :
    ((List.range n).map f).sum = (columns.map f).sum := by
  rw [← List.sum_toFinset f List.nodup_range, ← List.sum_toFinset f hordered.nodup]
  refine (Finset.sum_subset (fun j hj => ?_) fun j _ hj => ?_).symm
  · rw [List.mem_toFinset] at hj ⊢
    exact List.mem_range.mpr (hwithin j hj)
  · exact hblank j fun hmem => hj (List.mem_toFinset.mpr hmem)

theorem sum_exchange {α β : Type} (f : α → β → Nat) (xs : List α) (ys : List β) :
    (xs.map fun x => (ys.map (f x)).sum).sum = (ys.map fun y => (xs.map (f · y)).sum).sum := by
  induction xs with
  | nil => simp
  | cons x xs ih =>
    rw [List.map_cons, List.sum_cons, ih, ← List.sum_map_add]
    rfl

theorem sum_getD {n : Nat} {line : List Text} (h : line.length = n) (f : Text → Nat) :
    (line.map f).sum = ((List.range n).map fun j => f (line.getD j [])).sum := by
  have hline : line = (List.range n).map (line.getD · []) := by
    refine List.ext_getElem (by simp [h]) fun j hj _ => ?_
    rw [List.getElem_map, List.getElem_range, List.getD_eq_getElem?_getD, List.getElem?_eq_getElem hj]
    rfl
  conv => lhs; rw [hline]
  rw [List.map_map]
  rfl

theorem map_eq_map_of_forall₂ {α β γ : Type} {f : α → γ} {g : β → γ} {xs : List α} {ys : List β}
    (h : List.Forall₂ (fun x y => f x = g y) xs ys) : xs.map f = ys.map g := by
  have hmap := List.forall₂_map_left_iff.mpr (List.forall₂_map_right_iff.mpr h)
  rwa [List.forall₂_eq_eq_eq] at hmap

/-! ## Lines -/

variable {p : Char → Bool}

theorem countP_eq (t : Text) : t.countP p = (ink p t).length := List.countP_eq_length_filter

theorem sum_countP_eq (ls : List Text) :
    (ls.map (List.countP p)).sum = (ls.flatMap (ink p)).length := by
  rw [List.length_flatMap]
  exact congrArg List.sum (List.map_congr_left fun l _ => countP_eq l)

variable (hp : Ink p)
include hp

theorem Ink.guarded {s t : Text} (h : Guarded s t) : ink p t = ink p s := by
  induction h with
  | nil => rfl
  | keep c h ih => rw [ink_cons, ih, ← ink_cons]
  | guard h ih => rw [ink_cons_of_neg hp.slash, ink_cons_of_neg hp.bar, ih, ink_cons_of_neg hp.bar]

/-- What is shown of a value in a column has the ink of the value. -/
theorem Ink.column {v : Text} {ls : List Text} (h : List.Forall₂ Guarded (displayLines v) ls) :
    ls.flatMap (ink p) = ink p v := by
  rw [← ink_displayLines hp.blank]
  generalize displayLines v = ks at h
  induction h with
  | nil => rfl
  | cons hl _ ih => rw [List.flatMap_cons, List.flatMap_cons, hp.guarded hl, ih]

theorem Ink.tableLine (segments : List Text) :
    ink p (tableLine segments) = segments.flatMap (ink p) := by
  have hopen : ink p "| ".toList = [] := ink_eq_nil (by simp [hp.bar, hp.space])
  have hclose : ink p " |".toList = [] := ink_eq_nil (by simp [hp.bar, hp.space])
  have hbetween : ink p " | ".toList = [] := ink_eq_nil (by simp [hp.bar, hp.space])
  rw [Table.tableLine, ink_append, ink_append, hopen, hclose, joinCells, ink_intercalate hbetween,
    List.nil_append, List.append_nil]

theorem Ink.dashLine (groups : List Nat) : ink p (dashLine groups) = [] := by
  have hdash : p '-' = false := hp.marker _ (by decide)
  have hbar : ink p ['|'] = [] := ink_eq_nil (by simp [hp.bar])
  have hdashes : (groups.map fun n => List.replicate n '-').flatMap (ink p) = [] := by
    rw [List.flatMap_map, List.flatMap_eq_nil_iff]
    exact fun n _ => ink_eq_nil fun c hc => by rw [List.eq_of_mem_replicate hc, hdash]
  rw [Table.dashLine, ink_append, ink_cons_of_neg hp.bar, ink_intercalate hbar, hdashes, hbar]
  rfl

/-! ## Rows -/

/-- The group of a row has the ink of its cells. -/
theorem countP_group {n : Nat} {r : Arranged} {group : List (List Text)} (h : Shows n r group) :
    (group.map fun line => (tableLine line).countP p).sum =
      (r.row.cells.map fun c => c.value.countP p).sum := by
  have hline : ∀ line ∈ group, (tableLine line).countP p =
      ((List.range n).map fun j => (line.getD j []).countP p).sum := fun line hmem => by
    rw [← sum_getD (h.width line hmem), sum_countP_eq, countP_eq, hp.tableLine]
  have hcolumn : ∀ j, (group.map fun line => (line.getD j []).countP p).sum =
      ((readColumn j group).flatMap (ink p)).length := fun j => by
    rw [readColumn, ink_shown hp.blank, ← sum_countP_eq, List.map_map]
    rfl
  have hblank : ∀ j, j ∉ r.columns → ((readColumn j group).flatMap (ink p)).length = 0 := by
    intro j hj
    rw [← hcolumn, List.sum_eq_zero_iff_forall_eq_nat, List.forall_mem_map]
    intro line hmem
    rw [countP_eq, hp.gauge.of_allBlank (h.blank line hmem j hj)]
    rfl
  rw [List.map_congr_left hline, sum_exchange, List.map_congr_left fun j _ => hcolumn j,
    sum_columns h.ordered h.within hblank]
  exact congrArg List.sum <| Eq.symm <| map_eq_map_of_forall₂ <| h.shown.imp fun cell j hcell => by
    rw [hp.column hcell, countP_eq]

/-- A table has the ink of its cells. -/
theorem countP_table {rows : List (Row Cell)} (hne : rows ≠ []) (hcells : ∀ row ∈ rows, row.cells ≠ [])
    {table : Text} (hlines : lines table = (arrangement rows).sheet.lines) :
    table.countP p = (rows.map fun row => (row.cells.map fun c => c.value.countP p).sum).sum := by
  have hread := readsBack_arrangement hne hcells
  have hlt := headerIndex_lt hne
  -- The header row goes first in the table, and stands at its own place in the document.
  have hrows : List.Perm
      ((arrangement rows).header.row :: (arrangement rows).others.map Arranged.row) rows := by
    have hfirst := hread.first
    rw [List.getElem?_eq_getElem hlt, Option.some.injEq] at hfirst
    rw [hread.rest, ← hfirst]
    exact List.getElem_cons_eraseIdx_perm hlt
  have hbody : ((arrangement rows).sheet.body.map fun group =>
      (group.map fun line => (tableLine line).countP p).sum).sum =
        ((arrangement rows).others.map fun r => (r.row.cells.map fun c => c.value.countP p).sum).sum := by
    exact congrArg List.sum <| Eq.symm <| map_eq_map_of_forall₂ <| hread.others.imp
      fun r group hgroup => (countP_group hp hgroup).symm
  have htable : table.countP p = ((arrangement rows).sheet.lines.map (List.countP p)).sum := by
    rw [← hlines, sum_countP_eq, hp.gauge.lines, countP_eq]
  have hdashes : (dashLine (arrangement rows).sheet.dashes).countP p = 0 := by
    rw [countP_eq, hp.dashLine]
    rfl
  rw [htable, Sheet.lines, List.map_append, List.map_cons, List.map_flatMap, List.flatMap_def,
    List.sum_append, List.sum_cons, List.sum_flatten, List.map_map, List.map_map]
  simp only [List.map_map, Function.comp_def]
  rw [countP_group hp hread.header, hdashes, Nat.zero_add, hbody, ← (hrows.map _).sum_nat,
    List.map_cons, List.sum_cons, List.map_map]
  rfl

end Table

end Hypermark
