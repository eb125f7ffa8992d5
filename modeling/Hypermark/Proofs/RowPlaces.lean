import Hypermark.Proofs.Quiet
import Hypermark.Proofs.Recursion

/-!
# Rows as places

The renderer meets the rows of a table on its way down, wherever they stand.  They are the rows that
a search finds, and what is known of all nodes below the table is known of their cells.

* `rowsAmong_eq_rowPlaces`: the rows that are rendered are the rows found by a search.
* `reachedInRows_eq`: the same for the blocks that are reached in their cells.
* `throughout_of_mem_descendants`: what a search finds is below.
-/

namespace Hypermark

/-! ## Below a place -/

namespace Place

variable {B : Node → Prop}

mutual

theorem throughout_of_mem_elementsBelow {path : List Nat} {scope : Scope} :
    {n : Node} → (∀ c ∈ n.children, c.Throughout B) →
      ∀ q ∈ elementsBelow path scope n, q.node.Throughout B
  | .element _ _ _, h => throughout_of_mem_elementsAmong h
  | .text _, _ => by simp [elementsBelow]
  | .comment _, _ => by simp [elementsBelow]
  | .directive _ _, _ => by simp [elementsBelow]

theorem throughout_of_mem_elementsAmong {path : List Nat} {scope : Scope} {i : Nat} :
    {ns : List Node} → (∀ n ∈ ns, n.Throughout B) →
      ∀ q ∈ elementsAmong path scope i ns, q.node.Throughout B
  | [], _ => by simp [elementsAmong]
  | n :: ns, h => by
    rw [List.forall_mem_cons] at h
    rw [elementsAmong, List.forall_mem_append, List.forall_mem_append]
    refine ⟨⟨fun q hq => ?_, throughout_of_mem_elementsBelow fun _ hc => h.1.child hc⟩,
      throughout_of_mem_elementsAmong h.2⟩
    split at hq
    · rw [List.mem_singleton.mp hq]
      exact h.1
    · cases hq

end

theorem throughout_of_mem_descendants {p q : Place} (h : ∀ c ∈ p.node.children, c.Throughout B)
    (hq : q ∈ p.descendants) : q.node.Throughout B :=
  throughout_of_mem_elementsBelow h q hq

theorem mem_of_mem_siblings {path : List Nat} {scope : Scope} {i : Nat} {ns : List Node} {q : Place}
    (hq : q ∈ siblings path scope i ns) : q.scope = scope ∧ q.node ∈ ns := by
  induction ns generalizing i with
  | nil => cases hq
  | cons n ns ih =>
    rcases List.mem_cons.mp hq with rfl | hq
    · exact ⟨rfl, List.mem_cons_self ..⟩
    · exact ⟨(ih hq).1, List.mem_cons_of_mem n (ih hq).2⟩

end Place

namespace Render

/-! ## Cells and rows -/

/-- The cell that a place is rendered as. -/
def cellAt (opts : Options) (c : Place) : Cell :=
  ⟨c.node.attribute? "colspan".toList, c.node.attribute? "rowspan".toList,
    (blocks opts c.innerScope keepAll [] c.node.children).bind fun parts =>
      if Text.allBlank (Text.joinBlocks parts) then Inline.render c.innerScope c.node.children
      else Traced.pure (Text.trim (Text.joinBlocks parts))⟩

/-- The row that a place is, with its cells as places. -/
def rowAt (row : Place) : Row Place :=
  ⟨isHeaderRow row.scope row.node.children, row.children.filter fun c => isCell c.node⟩

/-- The blocks that are reached in a cell. -/
def reachedInCell (c : Place) : List Place := reachedAmong c.innerScope keepAll c.node.children

theorem rowPlaces_eq (table : Place) : rowPlaces table = (table.findAll isRow).map rowAt := rfl

theorem cellsAmong_eq (opts : Options) (path : List Nat) (scope : Scope) (i : Nat)
    (ns : List Node) :
    cellsAmong opts scope ns =
      ((Place.siblings path scope i ns).filter fun c => isCell c.node).map (cellAt opts) := by
  induction ns generalizing i with
  | nil => rw [cellsAmong]; rfl
  | cons n ns ih =>
    cases n with
    | element name attrs cs =>
      rw [cellsAmong, Place.siblings]
      by_cases hc : isCell (.element name attrs cs) = true
      · rw [if_pos hc, List.filter_cons, if_pos hc, List.map_cons, ih (i + 1)]
        rfl
      · rw [if_neg hc, List.filter_cons, if_neg hc, ih (i + 1)]
    | text t => simp only [cellsAmong, ih (i + 1)]; rfl
    | comment t => simp only [cellsAmong, ih (i + 1)]; rfl
    | directive k t => simp only [cellsAmong, ih (i + 1)]; rfl

theorem reachedInCells_eq (path : List Nat) (scope : Scope) (i : Nat) (ns : List Node) :
    reachedInCells scope ns =
      ((Place.siblings path scope i ns).filter fun c => isCell c.node).flatMap reachedInCell := by
  induction ns generalizing i with
  | nil => rw [reachedInCells]; rfl
  | cons n ns ih =>
    cases n with
    | element name attrs cs =>
      rw [reachedInCells, Place.siblings, ih (i + 1), List.filter_cons]
      by_cases hc : isCell (.element name attrs cs) = true
      · simp only [if_pos hc, List.flatMap_cons]
        rfl
      · simp only [if_neg hc, List.nil_append]
    | text t => simp only [reachedInCells, ih (i + 1)]; rfl
    | comment t => simp only [reachedInCells, ih (i + 1)]; rfl
    | directive k t => simp only [reachedInCells, ih (i + 1)]; rfl

theorem isRow_eq (path : List Nat) (scope : Scope) (name : Text) (attrs : Attributes)
    (cs : List Node) : (decide (Text.lower name = "tr".toList) && cs.any isCell) =
      isRow ⟨path, scope, .element name attrs cs⟩ := by
  simp only [isRow, Place.tag, Node.tag, Node.children, beq_eq_decide]

mutual

theorem rowsOf_eq (opts : Options) (path : List Nat) (scope : Scope) :
    (n : Node) → rowsOf opts scope n =
      (((if n.isElement then [(⟨path, scope, n⟩ : Place)] else []) ++
        Place.elementsBelow path scope n).filter isRow).map (Row.mapCells (cellAt opts) ∘ rowAt)
  | .element name attrs cs => by
    have helement : (Node.element name attrs cs).isElement = true := rfl
    rw [rowsOf, Place.elementsBelow, List.filter_append, List.map_append,
      rowsAmong_eq opts path (name :: scope) 0 cs, isRow_eq path scope name attrs cs,
      if_pos helement, List.filter_singleton]
    congr 1
    by_cases hr : isRow ⟨path, scope, .element name attrs cs⟩ = true
    · rw [if_pos hr, hr, cellsAmong_eq opts path (name :: scope) 0 cs]
      rfl
    · rw [if_neg hr, Bool.eq_false_iff.mpr hr]
      rfl
  | .text _ => by simp only [rowsOf]; rfl
  | .comment _ => by simp only [rowsOf]; rfl
  | .directive _ _ => by simp only [rowsOf]; rfl

theorem rowsAmong_eq (opts : Options) (path : List Nat) (scope : Scope) (i : Nat) :
    (ns : List Node) → rowsAmong opts scope ns =
      ((Place.elementsAmong path scope i ns).filter isRow).map
        (Row.mapCells (cellAt opts) ∘ rowAt)
  | [] => by rw [rowsAmong]; rfl
  | n :: ns => by
    rw [rowsAmong, Place.elementsAmong, List.filter_append, List.map_append,
      rowsOf_eq opts (path ++ [i]) scope n, rowsAmong_eq opts path scope (i + 1) ns]

end

mutual

theorem reachedInRow_eq (path : List Nat) (scope : Scope) :
    (n : Node) → reachedInRow scope n =
      (((if n.isElement then [(⟨path, scope, n⟩ : Place)] else []) ++
        Place.elementsBelow path scope n).filter isRow).flatMap
          fun row => (rowAt row).cells.flatMap reachedInCell
  | .element name attrs cs => by
    have helement : (Node.element name attrs cs).isElement = true := rfl
    rw [reachedInRow, Place.elementsBelow, List.filter_append, List.flatMap_append,
      reachedInRows_eq path (name :: scope) 0 cs, isRow_eq path scope name attrs cs,
      if_pos helement, List.filter_singleton]
    congr 1
    by_cases hr : isRow ⟨path, scope, .element name attrs cs⟩ = true
    · rw [if_pos hr, hr, reachedInCells_eq path (name :: scope) 0 cs]
      exact (List.flatMap_singleton ..).symm
    · rw [if_neg hr, Bool.eq_false_iff.mpr hr]
      rfl
  | .text _ => by simp only [reachedInRow]; rfl
  | .comment _ => by simp only [reachedInRow]; rfl
  | .directive _ _ => by simp only [reachedInRow]; rfl

theorem reachedInRows_eq (path : List Nat) (scope : Scope) (i : Nat) :
    (ns : List Node) → reachedInRows scope ns =
      ((Place.elementsAmong path scope i ns).filter isRow).flatMap
        fun row => (rowAt row).cells.flatMap reachedInCell
  | [] => by rw [reachedInRows]; rfl
  | n :: ns => by
    rw [reachedInRows, Place.elementsAmong, List.filter_append, List.flatMap_append,
      reachedInRow_eq (path ++ [i]) scope n, reachedInRows_eq path scope (i + 1) ns]

end

/-! ## Tables -/

theorem rowsAmong_eq_rowPlaces (opts : Options) (table : Place) :
    rowsAmong opts table.innerScope table.node.children =
      (rowPlaces table).map (Row.mapCells (cellAt opts)) := by
  obtain ⟨path, scope, n⟩ := table
  cases n with
  | element name attrs cs =>
    show rowsAmong opts (name :: scope) cs = _
    rw [rowsAmong_eq opts path (name :: scope) 0 cs, rowPlaces_eq, List.map_map]
    rfl
  | text t => simp only [Place.innerScope, Node.children, rowsAmong]; rfl
  | comment t => simp only [Place.innerScope, Node.children, rowsAmong]; rfl
  | directive k t => simp only [Place.innerScope, Node.children, rowsAmong]; rfl

theorem reachedInRows_eq_rowPlaces (table : Place) :
    reachedInRows table.innerScope table.node.children =
      (rowPlaces table).flatMap fun row => row.cells.flatMap reachedInCell := by
  obtain ⟨path, scope, n⟩ := table
  cases n with
  | element name attrs cs =>
    show reachedInRows (name :: scope) cs = _
    rw [reachedInRows_eq path (name :: scope) 0 cs, rowPlaces_eq, List.flatMap_map]
    rfl
  | text t => simp only [Place.innerScope, Node.children, reachedInRows]; rfl
  | comment t => simp only [Place.innerScope, Node.children, reachedInRows]; rfl
  | directive k t => simp only [Place.innerScope, Node.children, reachedInRows]; rfl

/-! ## Cells -/

section Cells

variable {table c : Place} {row : Row Place} (hrow : row ∈ rowPlaces table) (hc : c ∈ row.cells)
include hrow hc

theorem isCell_of_mem_rowPlaces : isCell c.node = true := by
  obtain ⟨place, _, rfl⟩ := List.mem_map.mp hrow
  exact (List.mem_filter.mp hc).2

/-- A cell is a child of a row that a search finds. -/
theorem exists_row_of_mem_rowPlaces : ∃ place ∈ table.findAll isRow,
    c.scope = place.innerScope ∧ c.node ∈ place.node.children := by
  obtain ⟨place, hplace, rfl⟩ := List.mem_map.mp hrow
  exact ⟨place, hplace, Place.mem_of_mem_siblings (List.mem_filter.mp hc).1⟩

theorem throughout_of_mem_rowPlaces {B : Node → Prop}
    (h : ∀ n ∈ table.node.children, n.Throughout B) : c.node.Throughout B := by
  obtain ⟨place, hplace, _, hmem⟩ := exists_row_of_mem_rowPlaces hrow hc
  exact (Place.throughout_of_mem_descendants h (List.mem_filter.mp hplace).1).child hmem

end Cells

end Render

end Hypermark
