import Hypermark.Proofs.ListSession

/-!
# Open lists are given back

Whatever is rendered with a stack of open lists comes to what it comes to without one, and the lists
are open as before once it is done, whether it ends with a value or a fault.  The induction is on
the tree; `Steady` is what it carries: the node as a block, its children as the items of the
innermost list, and the rows in it.

* `follows_table`: all cells are rendered before a table is laid out, whatever its mode.
* `steady`: the induction.
-/

namespace Hypermark.Session

variable {α β γ δ : Type} {opts : Options} {scope : Scope}

/-! ## Tables -/

/-- A cell with its open lists and the cell that it is without them. -/
structure CellFollows (c : OpenCell) (c' : Cell) : Prop where
  colspan : c.colspan = c'.colspan
  rowspan : c.rowspan = c'.rowspan
  content : Follows c.content c'.content

structure RowFollows (row : Row OpenCell) (row' : Row Cell) : Prop where
  header : row.header = row'.header
  cells : List.Forall₂ CellFollows row.cells row'.cells

/-- Renders a cell and reads its spans, as `renderCell` does. -/
def settleCell (asked : Bool) (c : Cell) : Traced Cell :=
  c.content.bind fun value =>
    (readSpans asked c.colspan c.rowspan).bind fun _ =>
      Traced.pure ⟨c.colspan, c.rowspan, Traced.pure value⟩

def settleRow (asked : Bool) (row : Row Cell) : Traced (Row Cell) :=
  (Traced.sequence (row.cells.map (settleCell asked))).bind fun cells =>
    Traced.pure ⟨row.header, cells⟩

theorem follows_renderCell {asked : Bool} {c : OpenCell} {c' : Cell} (h : CellFollows c c') :
    Follows (renderCell asked c) (settleCell asked c') := by
  obtain ⟨hcolspan, hrowspan, hcontent⟩ := h
  rw [renderCell, hcolspan, hrowspan]
  exact follows_bind hcontent fun value => follows_bind (follows_lift _) fun _ => follows_pure _

theorem follows_map_sequence {f : α → Session γ} {g : β → Traced γ} {R : α → β → Prop}
    (hf : ∀ a b, R a b → Follows (f a) (g b)) {as : List α} {bs : List β}
    (h : List.Forall₂ R as bs) :
    Follows (sequence (as.map f)) (Traced.sequence (bs.map g)) :=
  follows_sequence <| List.forall₂_map_left_iff.mpr <| List.forall₂_map_right_iff.mpr <|
    h.imp hf

theorem follows_renderRow {asked : Bool} {row : Row OpenCell} {row' : Row Cell}
    (h : RowFollows row row') : Follows (renderRow asked row) (settleRow asked row') := by
  rw [renderRow, h.header]
  have hcells := follows_map_sequence (f := renderCell asked) (g := settleCell asked)
    (fun _ _ => follows_renderCell) h.cells
  exact follows_bind hcells fun cells => follows_pure _

theorem quiet_of_settleCell {asked : Bool} {c c' : Cell}
    (h : (settleCell asked c).outcome = .ok c') : c.quiet = c' := by
  simp only [settleCell, Traced.bind_outcome_eq_ok_iff] at h
  obtain ⟨value, hvalue, _, _, h⟩ := h
  rw [← Except.ok.inj h, Cell.quiet, Traced.quiet, hvalue]
  rfl

theorem quiet_of_settleRow {asked : Bool} {row row' : Row Cell}
    (h : (settleRow asked row).outcome = .ok row') : row.mapCells Cell.quiet = row' := by
  rw [settleRow, Traced.bind_outcome_eq_ok_iff] at h
  obtain ⟨cells, hcells, h⟩ := h
  rw [← Except.ok.inj h, Row.mapCells,
    Traced.sequence_map_eq (g := Cell.quiet) hcells fun c c' hc => quiet_of_settleCell hc]

/-- If one ends in a fault, the other ends in the same one. -/
def SameFault (x : Traced α) (y : Traced β) : Prop := Alike (fun _ _ => True) x.outcome y.outcome

theorem sameFault_bind_pure {x : Traced α} {y : Traced β} (h : SameFault x y) (f : α → γ)
    (g : β → δ) : SameFault (x.bind (Traced.pure ∘ f)) (y.bind (Traced.pure ∘ g)) :=
  alike_bind h fun _ _ _ => .ok trivial

theorem sameFault_sequence {ι : Type} {f : ι → Traced α} {g : ι → Traced β}
    (h : ∀ i, SameFault (f i) (g i)) (is : List ι) :
    SameFault (Traced.sequence (is.map f)) (Traced.sequence (is.map g)) := by
  have hsteps : List.Forall₂ (fun x y => Alike (fun _ _ => True) x.outcome y.outcome)
      (is.map f) (is.map g) :=
    List.forall₂_map_left_iff.mpr <| List.forall₂_map_right_iff.mpr <|
      List.forall₂_same.mpr fun i _ => h i
  have hsequence := alike_sequence hsteps
  unfold SameFault
  generalize (Traced.sequence (is.map f)).outcome = r at hsequence ⊢
  generalize (Traced.sequence (is.map g)).outcome = r' at hsequence ⊢
  cases hsequence with
  | ok _ => exact .ok trivial
  | error e => exact .error e

theorem sameFault_spannedRow (row : Row Cell) :
    SameFault (settleRow true row) (Table.spannedRow row) := by
  refine sameFault_bind_pure (sameFault_sequence (fun c => ?_) row.cells) _ _
  refine alike_bind (alike_eq_iff.mpr rfl) fun value _ _ => ?_
  rw [readSpans, if_pos rfl, Traced.bind_assoc]
  refine alike_bind (alike_eq_iff.mpr rfl) fun _ _ _ => ?_
  rw [Traced.bind_assoc]
  exact alike_bind (alike_eq_iff.mpr rfl) fun _ _ _ => .ok trivial

theorem sameFault_valued (row : Row Cell) :
    SameFault (settleRow false row) (Table.valued row) := by
  refine sameFault_bind_pure (sameFault_sequence (fun c => ?_) row.cells) _ _
  unfold SameFault settleCell
  cases h : c.content.outcome with
  | error e =>
    rw [Traced.bind_outcome_of_error h]
    exact .error e
  | ok value =>
    rw [Traced.bind_outcome_of_ok h]
    exact .ok trivial

theorem error_of_sameFault {x : Traced α} {y : Traced β} {e : Fault} (h : SameFault x y)
    (hx : x.outcome = .error e) : y.outcome = .error e := by
  rw [SameFault, hx] at h
  generalize y.outcome = r at h
  cases h
  rfl

section SettledTable

variable {rows : List (Row Cell)} {caption : Traced Text}

/-- Some cell reaches over rows. -/
abbrev reachesRows (rows : List (Row Cell)) : Bool :=
  (rows.flatMap Row.cells).any (Table.isSignificantSpan ·.rowspan)

theorem renderRows_error {e : Fault}
    (h : (Traced.sequence (rows.map (settleRow (reachesRows rows)))).outcome = .error e) :
    (Table.renderRows rows).outcome = .error e := by
  unfold Table.renderRows
  cases hr : reachesRows rows with
  | true =>
    rw [hr] at h
    have hrows := error_of_sameFault (sameFault_sequence sameFault_spannedRow rows) h
    rw [if_pos hr, Traced.bind_outcome_of_ok rfl, Table.renderExpanded,
      Traced.bind_outcome_of_error hrows]
  | false =>
    rw [hr] at h
    have hrows := error_of_sameFault (sameFault_sequence sameFault_valued rows) h
    rw [if_neg (Bool.eq_false_iff.mp hr)]
    split
    · rw [Traced.bind_outcome_of_ok rfl, Table.renderRowByRow, Traced.bind_outcome_of_error hrows]
    · rw [Table.renderPlain, Traced.bind_outcome_of_error hrows]

/-- Rendering the cells before the table is laid out makes no difference: their values and the
first fault are the same. -/
theorem settled_table :
    ((Traced.sequence (rows.map (settleRow (reachesRows rows)))).bind fun rows =>
      Table.render rows caption).outcome = (Table.render rows caption).outcome := by
  cases h : (Traced.sequence (rows.map (settleRow (reachesRows rows)))).outcome with
  | ok settled =>
    have hquiet := Traced.sequence_map_eq (g := Row.mapCells Cell.quiet) h
      fun row row' hrow => quiet_of_settleRow hrow
    rw [Traced.bind_outcome_of_ok h, hquiet, Table.render_quiet]
  | error e =>
    have hrows : rows ≠ [] := by
      rintro rfl
      cases h
    rw [Traced.bind_outcome_of_error h, Table.render,
      if_neg (by simpa only [List.isEmpty_iff] using hrows),
      Traced.bind_outcome_of_error (renderRows_error h)]

end SettledTable

theorem any_rowspan_eq {cells : List OpenCell} {cells' : List Cell}
    (h : List.Forall₂ CellFollows cells cells') :
    cells.any (Table.isSignificantSpan ·.rowspan) =
      cells'.any (Table.isSignificantSpan ·.rowspan) := by
  induction h with
  | nil => rfl
  | cons hc _ ih => rw [List.any_cons, List.any_cons, hc.rowspan, ih]

theorem follows_table {rows : List (Row OpenCell)} {rows' : List (Row Cell)}
    (h : List.Forall₂ RowFollows rows rows') (caption : Traced Text) :
    Follows (table rows caption) (Table.render rows' caption) := by
  have hasked : isExpanded rows = reachesRows rows' :=
    any_rowspan_eq (List.rel_flatMap h fun _ _ hrow => RowFollows.cells hrow)
  have hrows := follows_map_sequence (f := renderRow (isExpanded rows))
    (g := settleRow (isExpanded rows)) (fun _ _ => follows_renderRow) h
  have htable := follows_bind hrows fun rows => follows_lift (Table.render rows caption)
  rw [hasked] at htable
  refine follows_of_outcome ?_ settled_table
  rw [table, hasked]
  exact htable

/-! ## Figures and containers -/

theorem follows_codeFigure {figure : Place} {parts : Figure.Parts}
    {before after : Session (List Text)} {before' after' : Traced (List Text)}
    (hbefore : Follows before before') (hafter : Follows after after') :
    Follows (codeFigure opts figure parts before after)
      (Render.codeFigure opts figure parts before' after') := by
  have hfigure := follows_bind (follows_lift (Render.figureCaption parts)) fun _ =>
    follows_bind (follows_lift (if opts.detectLanguage then Figure.detectLanguage figure
      else Traced.pure [])) fun _ =>
      follows_bind (follows_lift (Render.fence opts parts.code)) fun _ =>
        follows_bind hbefore fun before => follows_bind hafter fun after => follows_lift
          (Render.codeFigure opts figure parts (Traced.pure before) (Traced.pure after))
  refine follows_of_outcome hfigure ?_
  refine Traced.bind_outcome_congr rfl fun caption hcaption => ?_
  refine Traced.bind_outcome_congr rfl fun language hlanguage => ?_
  refine Traced.bind_outcome_congr rfl fun _ hfence => ?_
  rw [Traced.bind_outcome_of_ok (Traced.outcome_note _)]
  refine Traced.bind_outcome_congr rfl fun before _ => ?_
  refine Traced.bind_outcome_congr rfl fun after _ => ?_
  rw [Render.codeFigure, Traced.bind_outcome_of_ok hcaption, Traced.bind_outcome_of_ok hlanguage,
    Traced.bind_outcome_of_ok hfence]
  rfl

theorem follows_orInline {nodes : List Node} {finish : Text → Text}
    {blocks : Session (List Text)} {blocks' : Traced (List Text)} (h : Follows blocks blocks') :
    Follows (orInline scope nodes finish blocks)
      (blocks'.bind fun parts =>
        if Text.allBlank (Text.joinBlocks parts) then Inline.render scope nodes
        else Traced.pure (finish (Text.joinBlocks parts))) := by
  refine follows_bind h fun parts => ?_
  split
  · exact follows_lift _
  · exact follows_pure _

/-! ## The recursion -/

/-- What is known of a node once all nodes below it are: it comes to the same as a block, its
children do as the items of a list, and so do the cells of the rows in it. -/
structure Steady (opts : Options) (n : Node) : Prop where
  block : ∀ scope, Follows (block opts scope n) (Render.block opts scope n)
  items : ∀ scope depth, Counts (items opts scope depth n.children)
    fun due => Render.items opts scope depth due n.children
  rows : ∀ scope, List.Forall₂ RowFollows (rowsOf opts scope n) (Render.rowsOf opts scope n)

theorem runPart_follows (scope : Scope) (nodes : List Node) :
    List.Forall₂ PartFollows (runPart scope nodes) (Render.runSegment scope nodes) := by
  unfold runPart Render.runSegment
  split
  · exact .nil
  · exact .cons ⟨rfl, follows_lift _⟩ .nil

section Siblings

variable {ns : List Node} (h : ∀ n ∈ ns, n.Throughout (Steady opts))
include h

theorem follows_blocks {keep : Nat → Bool} {pending : List Node} :
    Follows (blocks opts scope keep pending ns) (Render.blocks opts scope keep pending ns) := by
  induction ns generalizing keep pending with
  | nil =>
    rw [blocks, Render.blocks]
    exact follows_lift _
  | cons n ns ih =>
    rw [List.forall_mem_cons] at h
    rw [blocks, Render.blocks]
    split
    · exact ih h.2
    · split
      · exact follows_bind (follows_lift _) fun before =>
          follows_bind (h.1.here.block scope) fun t =>
            follows_bind (ih h.2) fun rest => follows_pure _
      · split
        · exact ih h.2
        · exact ih h.2

theorem parts_follow {depth : Nat} {pending : List Node} :
    List.Forall₂ PartFollows (parts opts scope depth pending ns)
      (Render.segments opts scope depth pending ns) := by
  induction ns generalizing pending with
  | nil =>
    rw [parts, Render.segments]
    exact runPart_follows scope pending
  | cons n ns ih =>
    rw [List.forall_mem_cons] at h
    have hrest : ∀ p s, PartFollows p s → List.Forall₂ PartFollows
        (runPart scope pending ++ p :: parts opts scope depth [] ns)
        (Render.runSegment scope pending ++ s :: Render.segments opts scope depth [] ns) :=
      fun p s hp => List.rel_append (runPart_follows scope pending) (.cons hp (ih h.2))
    by_cases hb : n.isBlock = true
    · by_cases hl : ∃ ordered, n.role = .list ordered
      · obtain ⟨ordered, hrole⟩ := hl
        cases n with
        | element name attrs cs =>
          rw [parts_list hrole, Render.segments_list hrole]
          exact hrest _ _ ⟨rfl, follows_openList ordered _ (h.1.here.items _ _)⟩
        | text t => cases hrole
        | comment t => cases hrole
        | directive k t => cases hrole
      · rw [parts_block hb (not_exists.mp hl), Render.segments_block hb (not_exists.mp hl)]
        exact hrest _ _ ⟨rfl, h.1.here.block scope⟩
    · rw [parts_inline (Bool.eq_false_iff.mpr hb), Render.segments_inline (Bool.eq_false_iff.mpr hb)]
      exact ih h.2

theorem counts_items {depth : Nat} :
    Counts (items opts scope depth ns) fun due => Render.items opts scope depth due ns := by
  induction ns with
  | nil =>
    simp only [items, Render.items]
    exact counts_pure []
  | cons n ns ih =>
    rw [List.forall_mem_cons] at h
    cases n with
    | element name attrs cs =>
      by_cases hli : Text.lower name = "li".toList
      · simp only [items, Render.items, if_pos hli]
        exact counts_item (y := fun due => Render.items opts scope depth due ns)
          (parts_follow fun c hc => h.1.child hc) (ih h.2)
      · simp only [items, Render.items, if_neg hli]
        exact ih h.2
    | text t =>
      simp only [items, Render.items]
      exact ih h.2
    | comment t =>
      simp only [items, Render.items]
      exact ih h.2
    | directive k t =>
      simp only [items, Render.items]
      exact ih h.2

theorem cells_follow :
    List.Forall₂ CellFollows (cellsAmong opts scope ns) (Render.cellsAmong opts scope ns) := by
  induction ns with
  | nil =>
    rw [cellsAmong, Render.cellsAmong]
    exact .nil
  | cons n ns ih =>
    rw [List.forall_mem_cons] at h
    cases n with
    | element name attrs cs =>
      simp only [cellsAmong, Render.cellsAmong]
      split
      · exact .cons ⟨rfl, rfl, follows_orInline (follows_blocks fun c hc => h.1.child hc)⟩
          (ih h.2)
      · exact ih h.2
    | text t =>
      simp only [cellsAmong, Render.cellsAmong]
      exact ih h.2
    | comment t =>
      simp only [cellsAmong, Render.cellsAmong]
      exact ih h.2
    | directive k t =>
      simp only [cellsAmong, Render.cellsAmong]
      exact ih h.2

theorem rows_follow :
    List.Forall₂ RowFollows (rowsAmong opts scope ns) (Render.rowsAmong opts scope ns) := by
  induction ns with
  | nil =>
    rw [rowsAmong, Render.rowsAmong]
    exact .nil
  | cons n ns ih =>
    rw [List.forall_mem_cons] at h
    rw [rowsAmong, Render.rowsAmong]
    exact List.rel_append (h.1.here.rows scope) (ih h.2)

end Siblings

theorem follows_block {n : Node} (h : ∀ c ∈ n.children, c.Throughout (Steady opts))
    (scope : Scope) : Follows (block opts scope n) (Render.block opts scope n) := by
  cases n with
  | element name attrs cs =>
    have hblocks : ∀ keep, Follows (blocks opts (name :: scope) keep [] cs)
        (Render.blocks opts (name :: scope) keep [] cs) := fun keep => follows_blocks h
    cases hrole : (Node.element name attrs cs).role with
    | table =>
      simp only [block, Render.block, hrole]
      split
      · exact follows_of_outcome (follows_pure _) rfl
      · exact follows_table (rows_follow h) _
    | quote =>
      simp only [block, Render.block, hrole]
      split
      · exact follows_bind (hblocks _) fun parts => follows_pure _
      · exact follows_lift _
    | list ordered =>
      simp only [block, Render.block, hrole]
      exact follows_openList ordered _ (counts_items h)
    | figure =>
      simp only [block, Render.block, hrole]
      cases Figure.parts? ⟨[], scope, .element name attrs cs⟩ with
      | some parts => exact follows_codeFigure (hblocks _) (hblocks _)
      | none => exact follows_orInline (hblocks _)
    | container =>
      simp only [block, Render.block, hrole]
      exact follows_orInline (hblocks _)
    | _ =>
      simp only [block, hrole]
      exact follows_lift _
  | text t =>
    simp only [block, Render.block]
    exact follows_pure _
  | comment t =>
    simp only [block, Render.block]
    exact follows_pure _
  | directive k t =>
    simp only [block, Render.block]
    exact follows_pure _

theorem steady (n : Node) : n.Throughout (Steady opts) := by
  refine Node.throughout (fun n h => ?_) n
  refine ⟨follows_block h, fun _ _ => counts_items h, fun scope => ?_⟩
  cases n with
  | element name attrs cs =>
    simp only [rowsOf, Render.rowsOf]
    refine List.rel_append ?_ (rows_follow h)
    split
    · exact .cons ⟨rfl, cells_follow h⟩ .nil
    · exact .nil
  | text t =>
    simp only [rowsOf, Render.rowsOf]
    exact .nil
  | comment t =>
    simp only [rowsOf, Render.rowsOf]
    exact .nil
  | directive k t =>
    simp only [rowsOf, Render.rowsOf]
    exact .nil

theorem follows_list (scope : Scope) (depth : Nat) (n : Node) :
    Follows (list opts scope depth n) (Render.list opts scope depth n) := by
  cases n with
  | element name attrs cs =>
    rw [list, Render.list]
    exact follows_openList _ _ (counts_items fun c _ => steady c)
  | text t => exact follows_pure []
  | comment t => exact follows_pure []
  | directive k t => exact follows_pure []

end Hypermark.Session
