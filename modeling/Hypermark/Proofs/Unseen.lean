import Hypermark.Convert
import Hypermark.Proofs.Outcome
import Hypermark.Proofs.KeptShape

/-!
# Changes that are not seen

A change of trees is not seen if it keeps their shape and if what the renderer takes from a node in
one go is the same after it: a line from a run of nodes, the code of a block, the rows and the
caption of a table, the parts of a figure.  Then the whole document is converted alike.

* `Unseen`: what has to be the same, for lines with `I` and blocks with `P`.
* `convertTree_unseen`: then all of the document is.
-/

namespace Hypermark

open Traced

namespace Render

/-- The parts of a figure before and after a change, told apart and rendered alike. -/
def SameParts (opts : Options) (figure figure' : Place) : Option Figure.Parts →
    Option Figure.Parts → Prop
  | none, none => True
  | some parts, some parts' =>
    parts'.isBefore = parts.isBefore ∧ parts'.isAfter = parts.isAfter ∧
      ∀ before before' after after' : Traced (List Text),
        before'.outcome = before.outcome → after'.outcome = after.outcome →
          (codeFigure opts figure' parts' before' after').outcome =
            (codeFigure opts figure parts before after).outcome
  | _, _ => False

/-- What a change of trees has to leave alone.  `I` is known of all nodes that are rendered and `P`
of those that are rendered as blocks. -/
structure Unseen (opts : Options) (T : Node → Node) (I : Scope → Node → Prop) (P : Place → Prop) :
    Prop extends KeepsShape T where
  inner : ∀ scope name attrs cs, I scope (.element name attrs cs) →
    Role.ofTag (Text.lower name) ≠ .ignored → ∀ c ∈ cs, I (name :: scope) c
  line : ∀ scope ns, (∀ n ∈ ns, I scope n) →
    (Inline.render scope (ns.map T)).outcome = (Inline.render scope ns).outcome
  code : ∀ p : Place, I p.scope p.node → P p → p.node.role = .preformatted →
    (fencedCode opts (p.change T)).outcome = (fencedCode opts p).outcome
  nested : ∀ p : Place, I p.scope p.node → P p → p.node.role = .table →
    ((p.change T).findTag? "table".toList).isSome = (p.findTag? "table".toList).isSome
  markup : ∀ p : Place, P p → p.isRawTable = true → (T p.node).outerMarkup = p.node.outerMarkup
  rows : ∀ p : Place, I p.scope p.node → P p → p.node.role = .table → p.isRawTable = false →
    rowPlaces (p.change T) = (rowPlaces p).map (Row.mapCells (Place.change T)) ∧
      ∀ row ∈ rowPlaces p, ∀ c ∈ row.cells, I c.scope c.node
  caption : ∀ p : Place, I p.scope p.node → P p → p.node.role = .table → p.isRawTable = false →
    (caption (p.change T)).outcome = (caption p).outcome
  figure : ∀ p : Place, I p.scope p.node → P p → p.node.role = .figure →
    SameParts opts p (p.change T) (Figure.parts? p) (Figure.parts? (p.change T))

namespace Unseen

variable {opts : Options} {T : Node → Node} {I : Scope → Node → Prop} {P : Place → Prop}
  (hT : Unseen opts T I P)

include hT

/-! ## Lines -/

theorem run_outcome {scope : Scope} {ns : List Node} (h : ∀ n ∈ ns, I scope n) :
    (run scope (ns.map T)).outcome = (run scope ns).outcome :=
  bind_outcome_congr (hT.line scope ns h) fun _ _ => rfl

theorem runSegment_quiet {scope : Scope} {ns : List Node} (h : ∀ n ∈ ns, I scope n) :
    (runSegment scope (ns.map T)).map Segment.quiet =
      (runSegment scope ns).map Segment.quiet := by
  cases ns with
  | nil => rfl
  | cons n ns =>
    have hsame := hT.line scope (n :: ns) h
    simp only [List.map_cons] at hsame ⊢
    simp [runSegment, Segment.quiet, Traced.quiet, hsame]

theorem definitions_outcome {scope : Scope} (started : Bool) {ns : List Node}
    (h : ∀ n ∈ ns, I scope n) : (definitions scope started (ns.map T)).map outcome =
      (definitions scope started ns).map outcome := by
  induction ns generalizing started with
  | nil => rfl
  | cons n ns ih =>
    rw [List.forall_mem_cons] at h
    cases n with
    | element name attrs cs =>
      have hline : ∀ tag : Text, Role.ofTag tag ≠ .ignored → Text.lower name = tag →
          ∃ attrs', T (.element name attrs cs) = .element name attrs' (cs.map T) ∧
            ∀ g : Text → Markdown.Definition,
              ((Inline.render (name :: scope) (cs.map T)).bind (Traced.pure ∘ g)).outcome =
                ((Inline.render (name :: scope) cs).bind (Traced.pure ∘ g)).outcome := by
        intro tag htag hname
        rw [← hname] at htag
        obtain ⟨attrs', heq⟩ := hT.element_eq attrs cs htag
        exact ⟨attrs', heq, fun g => bind_outcome_congr
          (hT.line _ _ (hT.inner scope name attrs cs h.1 htag)) fun _ _ => rfl⟩
      by_cases ht : Text.lower name = "dt".toList
      · obtain ⟨attrs', heq, hline⟩ := hline _ (by decide) ht
        rw [List.map_cons, heq, definitions, definitions, if_pos ht, if_pos ht, List.map_cons,
          List.map_cons, ih _ h.2, hline]
      by_cases hd : (decide (Text.lower name = "dd".toList) && started) = true
      · obtain ⟨attrs', heq, hline⟩ := hline "dd".toList (by decide)
          (of_decide_eq_true (Bool.and_eq_true_iff.mp hd).1)
        rw [List.map_cons, heq, definitions, definitions, if_neg ht, if_neg ht, if_pos hd,
          if_pos hd, List.map_cons, List.map_cons, ih _ h.2, hline]
      · obtain ⟨attrs', cs', heq, _⟩ := hT.element name attrs cs
        rw [List.map_cons, heq, definitions, definitions, if_neg ht, if_neg ht, if_neg hd,
          if_neg hd, ih _ h.2]
    | text t =>
      rw [List.map_cons, hT.leaf _ rfl]
      exact ih started h.2
    | comment t =>
      rw [List.map_cons, hT.leaf _ rfl]
      exact ih started h.2
    | directive k t =>
      rw [List.map_cons, hT.leaf _ rfl]
      exact ih started h.2

end Unseen

/-! ## The recursion -/

/-- What is known of a node once all nodes below it are understood: it comes to the same as a block,
and its children do as the items of a list. -/
structure Unmoved (opts : Options) (T : Node → Node) (I : Scope → Node → Prop) (P : Place → Prop)
    (n : Node) : Prop where
  block : ∀ scope, n.isBlock = true → I scope n → (∀ p ∈ reached scope n, P p) →
    (block opts scope (T n)).outcome = (block opts scope n).outcome
  items : ∀ scope depth due, (∀ c ∈ n.children, I scope c) →
    (∀ p ∈ reachedInItems scope n.children, P p) →
      (items opts scope depth due (n.children.map T)).outcome =
        (items opts scope depth due n.children).outcome

namespace Unseen

variable {opts : Options} {T : Node → Node} {I : Scope → Node → Prop} {P : Place → Prop}
  (hT : Unseen opts T I P)

include hT

/-- A list as a block of its own or inside an item. -/
theorem list_outcome {scope : Scope} {depth : Nat} {name : Text} {attrs attrs' : Attributes}
    {cs cs' : List Node} (ordered : Bool)
    (heq : T (.element name attrs cs) = .element name attrs' cs')
    (h : ∀ first, (items opts scope depth first cs').outcome =
      (items opts scope depth first cs).outcome) :
    ((ofSized (firstNumber ordered (.element name attrs' cs'))).bind fun first =>
      (items opts scope depth first cs').bind (Traced.pure ∘ Text.unlines)).outcome =
    ((ofSized (firstNumber ordered (.element name attrs cs))).bind fun first =>
      (items opts scope depth first cs).bind (Traced.pure ∘ Text.unlines)).outcome := by
  rw [← heq, hT.firstNumber_eq]
  exact bind_outcome_congr rfl fun first _ => bind_outcome_congr (h first) fun _ _ => rfl

section Siblings

variable {ns : List Node} (h : ∀ n ∈ ns, n.Throughout (Unmoved opts T I P))
include h

theorem blocks_outcome {scope : Scope} {keep : Nat → Bool} (pending : List Node)
    (hpending : ∀ n ∈ pending, I scope n) (hI : ∀ n ∈ ns, I scope n)
    (hP : ∀ p ∈ reachedAmong scope keep ns, P p) :
    (blocks opts scope keep (pending.map T) (ns.map T)).outcome =
      (blocks opts scope keep pending ns).outcome := by
  -- what is pending is changed as well, and `I` is kept of it until its run ends
  induction ns generalizing keep pending with
  | nil =>
    rw [List.map_nil, blocks, blocks]
    exact hT.run_outcome hpending
  | cons n ns ih =>
    rw [List.forall_mem_cons] at h hI
    rw [reachedAmong, List.forall_mem_append] at hP
    rw [List.map_cons, blocks, blocks, hT.isBlock_eq, hT.isShown_eq]
    cases hk : keep 0 with
    | false =>
      simp only [Bool.not_false, if_true]
      exact ih h.2 pending hpending hI.2 hP.2
    | true =>
      simp only [Bool.not_true, Bool.false_eq_true, if_false]
      by_cases hb : n.isBlock = true
      · rw [if_pos hb, if_pos hb]
        rw [hk, Bool.true_and, if_pos hb] at hP
        refine bind_outcome_congr (hT.run_outcome hpending) fun _ _ => ?_
        refine bind_outcome_congr (h.1.here.block scope hb hI.1 hP.1) fun _ _ => ?_
        exact bind_outcome_congr (ih h.2 [] (List.forall_mem_nil _) hI.2 hP.2) fun _ _ => rfl
      · rw [if_neg hb, if_neg hb]
        by_cases hs : isShown n = true
        · have hmore : ∀ m ∈ pending ++ [n], I scope m :=
            List.forall_mem_append.mpr ⟨hpending, (List.forall_mem_singleton ..).mpr hI.1⟩
          rw [if_pos hs, if_pos hs, ← List.map_singleton, ← List.map_append]
          exact ih h.2 _ hmore hI.2 hP.2
        · rw [if_neg hs, if_neg hs]
          exact ih h.2 pending hpending hI.2 hP.2

theorem segments_quiet {scope : Scope} (depth : Nat) (pending : List Node)
    (hpending : ∀ n ∈ pending, I scope n) (hI : ∀ n ∈ ns, I scope n)
    (hP : ∀ p ∈ reachedAmong scope keepAll ns, P p) :
    (segments opts scope depth (pending.map T) (ns.map T)).map Segment.quiet =
      (segments opts scope depth pending ns).map Segment.quiet := by
  induction ns generalizing pending with
  | nil =>
    rw [List.map_nil, segments, segments]
    exact hT.runSegment_quiet hpending
  | cons n ns ih =>
    rw [List.forall_mem_cons] at h hI
    rw [reachedAmong, List.forall_mem_append] at hP
    rw [List.map_cons]
    by_cases hb : n.isBlock = true
    · rw [keepAll, Bool.true_and, if_pos hb] at hP
      have hrest := ih h.2 [] (List.forall_mem_nil _) hI.2 hP.2
      rw [List.map_nil] at hrest
      -- a list in an item goes deeper by its items; rendered as a block it would start anew
      by_cases hl : ∃ ordered, n.role = .list ordered
      · obtain ⟨ordered, hrole⟩ := hl
        cases n with
        | element name attrs cs =>
          have hshown : Role.ofTag (Text.lower name) ≠ .ignored := hrole.trans_ne (by simp)
          have hrole' := (hT.role_eq (.element name attrs cs)).trans hrole
          obtain ⟨attrs', heq⟩ := hT.element_eq attrs cs hshown
          have hitems : ∀ p ∈ reachedInItems (name :: scope) cs, P p := by
            simp only [reached, hrole, List.forall_mem_cons] at hP
            exact hP.1.2
          have hlist := hT.list_outcome ordered heq fun first =>
            h.1.here.items (name :: scope) (depth + 1) first
              (hT.inner scope name attrs cs hI.1 hshown) hitems
          rw [heq] at hrole' ⊢
          rw [segments_list hrole', segments_list hrole, List.map_append, List.map_append,
            hT.runSegment_quiet hpending, List.map_cons, List.map_cons, hrest]
          congr 2
          show Segment.mk _ _ (Traced.mk _ _) = Segment.mk _ _ (Traced.mk _ _)
          rw [hlist]
        | text t => cases hrole
        | comment t => cases hrole
        | directive k t => cases hrole
      · have hblock := h.1.here.block scope hb hI.1 hP.1
        have hl' : ∀ ordered, (T n).role ≠ .list ordered := by
          rw [hT.role_eq]
          exact not_exists.mp hl
        rw [segments_block ((hT.isBlock_eq n).trans hb) hl', segments_block hb (not_exists.mp hl),
          List.map_append, List.map_append, hT.runSegment_quiet hpending, List.map_cons,
          List.map_cons, hrest]
        congr 2
        show Segment.mk _ _ (Traced.mk _ _) = Segment.mk _ _ (Traced.mk _ _)
        rw [hblock]
    · have hmore : ∀ m ∈ pending ++ [n], I scope m :=
        List.forall_mem_append.mpr ⟨hpending, (List.forall_mem_singleton ..).mpr hI.1⟩
      rw [segments_inline ((hT.isBlock_eq n).trans (Bool.eq_false_iff.mpr hb)),
        segments_inline (Bool.eq_false_iff.mpr hb), ← List.map_singleton, ← List.map_append]
      exact ih h.2 _ hmore hI.2 hP.2

theorem items_outcome {scope : Scope} (depth : Nat) (due : Option Int) (hI : ∀ n ∈ ns, I scope n)
    (hP : ∀ p ∈ reachedInItems scope ns, P p) :
    (items opts scope depth due (ns.map T)).outcome = (items opts scope depth due ns).outcome := by
  induction ns generalizing due with
  | nil => rfl
  | cons n ns ih =>
    rw [List.forall_mem_cons] at h hI
    rw [List.map_cons]
    cases n with
    | element name attrs cs =>
      rw [reachedInItems, List.forall_mem_append] at hP
      by_cases hli : Text.lower name = "li".toList
      · have hshown : Role.ofTag (Text.lower name) ≠ .ignored := by
          rw [hli]
          decide
        have hnumber := hT.itemNumber_eq due (.element name attrs cs)
        obtain ⟨attrs', heq⟩ := hT.element_eq attrs cs hshown
        have hcs : ∀ p ∈ reachedAmong (name :: scope) keepAll cs, P p := by
          simpa only [if_pos hli] using hP.1
        rw [heq] at hnumber ⊢
        rw [items, items, if_pos hli, if_pos hli, hnumber]
        refine bind_outcome_congr rfl fun number _ => bind_outcome_congr rfl fun marker _ => ?_
        refine bind_outcome_congr ?_ fun item _ => ?_
        · exact Markdown.renderItem_congr <| hT.segments_quiet (fun c hc => h.1.child hc) depth
            [] (List.forall_mem_nil _) (hT.inner scope name attrs cs hI.1 hshown) hcs
        · exact bind_outcome_congr (ih h.2 _ hI.2 hP.2) fun _ _ => rfl
      · obtain ⟨attrs', cs', heq, _⟩ := hT.element name attrs cs
        rw [heq, items, items, if_neg hli, if_neg hli]
        exact ih h.2 _ hI.2 hP.2
    | text t =>
      rw [hT.leaf _ rfl]
      simp only [reachedInItems, List.nil_append] at hP
      exact ih h.2 _ hI.2 hP
    | comment t =>
      rw [hT.leaf _ rfl]
      simp only [reachedInItems, List.nil_append] at hP
      exact ih h.2 _ hI.2 hP
    | directive k t =>
      rw [hT.leaf _ rfl]
      simp only [reachedInItems, List.nil_append] at hP
      exact ih h.2 _ hI.2 hP

end Siblings

omit hT in
/-- Without blocks inside, a container is rendered in a line: nothing but what its content comes to
counts. -/
theorem fallback_outcome {content content' : Traced (List Text)} {inline inline' : Traced Text}
    (f : Text → Text) (hcontent : content'.outcome = content.outcome)
    (hinline : inline'.outcome = inline.outcome) :
    (content'.bind fun parts => if Text.allBlank (Text.joinBlocks parts) then inline'
      else Traced.pure (f (Text.joinBlocks parts))).outcome =
    (content.bind fun parts => if Text.allBlank (Text.joinBlocks parts) then inline
      else Traced.pure (f (Text.joinBlocks parts))).outcome := by
  refine bind_outcome_congr hcontent fun parts _ => ?_
  split
  · exact hinline
  · rfl

/-! ## Tables -/

theorem cell_quiet {c : Place} (h : c.node.Throughout (Unmoved opts T I P))
    (hcell : isCell c.node = true) (hI : I c.scope c.node) (hP : ∀ p ∈ reachedInCell c, P p) :
    (cellAt opts (c.change T)).quiet = (cellAt opts c).quiet := by
  obtain ⟨path, scope, n⟩ := c
  cases n with
  | element name attrs cs =>
    have hshown : Role.ofTag (Text.lower name) ≠ .ignored := not_ignored_of_isCell hcell
    have hinner := hT.inner scope name attrs cs hI hshown
    have hcolumns := hT.layout (.element name attrs cs) "colspan".toList (by decide)
    have hrows := hT.layout (.element name attrs cs) "rowspan".toList (by decide)
    obtain ⟨attrs', heq⟩ := hT.element_eq attrs cs hshown
    have hblocks := hT.blocks_outcome (fun c hc => h.child hc) [] (List.forall_mem_nil _) hinner hP
    have hcontent := fallback_outcome Text.trim hblocks (hT.line _ cs hinner)
    rw [heq] at hcolumns hrows
    rw [Place.change, heq, cellAt, cellAt, hcolumns, hrows]
    show Cell.mk _ _ (Traced.mk _ _) = Cell.mk _ _ (Traced.mk _ _)
    rw [Cell.mk.injEq, Traced.mk.injEq]
    exact ⟨rfl, rfl, rfl, hcontent⟩
  | text t => cases hcell
  | comment t => cases hcell
  | directive k t => cases hcell

theorem rows_quiet (table : Place)
    (h : ∀ c ∈ table.node.children, c.Throughout (Unmoved opts T I P))
    (hrows : rowPlaces (table.change T) = (rowPlaces table).map (Row.mapCells (Place.change T)))
    (hI : ∀ row ∈ rowPlaces table, ∀ c ∈ row.cells, I c.scope c.node)
    (hP : ∀ p ∈ reachedInRows table.innerScope table.node.children, P p) :
    (rowsAmong opts (table.change T).innerScope (table.change T).node.children).map
        (Row.mapCells Cell.quiet) =
      (rowsAmong opts table.innerScope table.node.children).map (Row.mapCells Cell.quiet) := by
  rw [reachedInRows_eq_rowPlaces] at hP
  rw [rowsAmong_eq_rowPlaces, rowsAmong_eq_rowPlaces, hrows, List.map_map, List.map_map,
    List.map_map]
  refine List.map_congr_left fun row hrow => ?_
  simp only [Function.comp_apply, Row.mapCells, List.map_map, Row.mk.injEq, true_and]
  refine List.map_congr_left fun c hc => ?_
  refine hT.cell_quiet (throughout_of_mem_rowPlaces hrow hc h) (isCell_of_mem_rowPlaces hrow hc)
    (hI row hrow c hc) fun p hp => hP p ?_
  exact List.mem_flatMap.mpr ⟨row, hrow, List.mem_flatMap.mpr ⟨c, hc, hp⟩⟩

theorem table_outcome {scope : Scope} {name : Text} {attrs : Attributes} {cs : List Node}
    (hrole : (Node.element name attrs cs).role = .table)
    (h : ∀ c ∈ cs, c.Throughout (Unmoved opts T I P)) (hI : I scope (.element name attrs cs))
    (hP : ∀ p ∈ reached scope (.element name attrs cs), P p) :
    (block opts scope (T (.element name attrs cs))).outcome =
      (block opts scope (.element name attrs cs)).outcome := by
  let table : Place := ⟨[], scope, .element name attrs cs⟩
  have hshown : Role.ofTag (Text.lower name) ≠ .ignored := hrole.trans_ne (by simp)
  have hrole' := (hT.role_eq (.element name attrs cs)).trans hrole
  obtain ⟨attrs', heq⟩ := hT.element_eq attrs cs hshown
  have hchange : table.change T = ⟨[], scope, .element name attrs' (cs.map T)⟩ := by
    rw [← heq]
    rfl
  simp only [reached, hrole, List.forall_mem_cons] at hP
  have hnested := hT.nested table hI hP.1 hrole
  have hmarkup := hT.markup table hP.1
  have hrows := hT.rows table hI hP.1 hrole
  have hcaption := hT.caption table hI hP.1 hrole
  have hquiet := hT.rows_quiet table h
  rw [hchange] at hnested hrows hcaption hquiet
  rw [heq] at hrole' hmarkup ⊢
  simp only [block, hrole, hrole', hnested]
  by_cases hn : (table.findTag? "table".toList).isSome = true
  · have hraw : table.isRawTable = true := by
      rw [Place.isRawTable, hn, show table.node.role = .table from hrole]
      rfl
    rw [if_pos hn, if_pos hn]
    exact bind_outcome_congr rfl fun _ _ => congrArg Except.ok (hmarkup hraw)
  · have hraw : table.isRawTable = false := by
      rw [Place.isRawTable, Bool.eq_false_iff.mpr hn, Bool.and_false]
    rw [if_neg hn] at hP
    rw [if_neg hn, if_neg hn]
    exact Table.render_congr (hquiet (hrows hraw).1 (hrows hraw).2 hP.2) (hcaption hraw)

/-! ## All blocks -/

theorem figure_outcome {scope : Scope} {name : Text} {attrs : Attributes} {cs : List Node}
    (hrole : (Node.element name attrs cs).role = .figure)
    (h : ∀ c ∈ cs, c.Throughout (Unmoved opts T I P)) (hI : I scope (.element name attrs cs))
    (hP : ∀ p ∈ reached scope (.element name attrs cs), P p) :
    (block opts scope (T (.element name attrs cs))).outcome =
      (block opts scope (.element name attrs cs)).outcome := by
  have hshown : Role.ofTag (Text.lower name) ≠ .ignored := hrole.trans_ne (by simp)
  have hinner := hT.inner scope name attrs cs hI hshown
  have hblocks : ∀ keep, (∀ p ∈ reachedAmong (name :: scope) keep cs, P p) →
      (blocks opts (name :: scope) keep [] (cs.map T)).outcome =
        (blocks opts (name :: scope) keep [] cs).outcome := fun keep hkeep =>
    hT.blocks_outcome h [] (List.forall_mem_nil _) hinner hkeep
  have hrole' := (hT.role_eq (.element name attrs cs)).trans hrole
  obtain ⟨attrs', heq⟩ := hT.element_eq attrs cs hshown
  simp only [reached, hrole, List.forall_mem_cons] at hP
  have hparts := hT.figure ⟨[], scope, .element name attrs cs⟩ hI hP.1 hrole
  rw [Place.change, heq] at hparts
  rw [heq] at hrole' ⊢
  simp only [block, hrole, hrole']
  cases hp : Figure.parts? ⟨[], scope, .element name attrs cs⟩ with
  | none =>
    cases hp' : Figure.parts? ⟨[], scope, .element name attrs' (cs.map T)⟩ with
    | none =>
      rw [hp] at hP
      exact fallback_outcome id (hblocks keepAll hP.2) (hT.line (name :: scope) cs hinner)
    | some parts' =>
      rw [hp, hp'] at hparts
      exact hparts.elim
  | some parts =>
    cases hp' : Figure.parts? ⟨[], scope, .element name attrs' (cs.map T)⟩ with
    | none =>
      rw [hp, hp'] at hparts
      exact hparts.elim
    | some parts' =>
      rw [hp, hp'] at hparts
      simp only [hp, List.forall_mem_append] at hP
      obtain ⟨hbefore, hafter, hsame⟩ := hparts
      dsimp only
      rw [hbefore, hafter]
      exact hsame _ _ _ _ (hblocks _ hP.2.1) (hblocks _ hP.2.2)

theorem block_outcome {n : Node} (h : ∀ c ∈ n.children, c.Throughout (Unmoved opts T I P))
    {scope : Scope} (hblock : n.isBlock = true) (hI : I scope n)
    (hP : ∀ p ∈ reached scope n, P p) :
    (block opts scope (T n)).outcome = (block opts scope n).outcome := by
  cases n with
  | text t => rw [hT.leaf _ rfl]
  | comment t => rw [hT.leaf _ rfl]
  | directive k t => rw [hT.leaf _ rfl]
  | element name attrs cs =>
    have hshown : Role.ofTag (Text.lower name) ≠ .ignored := by
      intro hignored
      rw [Node.isBlock, Node.role, hignored] at hblock
      cases hblock
    have hinner := hT.inner scope name attrs cs hI hshown
    have hline := hT.line (name :: scope) cs hinner
    have hblocks : ∀ keep, (∀ p ∈ reachedAmong (name :: scope) keep cs, P p) →
        (blocks opts (name :: scope) keep [] (cs.map T)).outcome =
          (blocks opts (name :: scope) keep [] cs).outcome := fun keep hkeep =>
      hT.blocks_outcome h [] (List.forall_mem_nil _) hinner hkeep
    have hrole' := hT.role_eq (.element name attrs cs)
    obtain ⟨attrs', heq⟩ := hT.element_eq attrs cs hshown
    cases hrole : (Node.element name attrs cs).role with
    | table => exact hT.table_outcome hrole h hI hP
    | list ordered =>
      simp only [reached, hrole, List.forall_mem_cons] at hP
      have hlist := hT.list_outcome ordered heq fun first =>
        hT.items_outcome h 0 first hinner hP.2
      rw [hrole, heq] at hrole'
      rw [heq]
      simpa only [block, hrole, hrole'] using hlist
    | quote =>
      simp only [reached, hrole, List.forall_mem_cons] at hP
      rw [hrole, heq] at hrole'
      rw [heq]
      simp only [block, hrole, hrole', hT.any_map_isBlock]
      split
      · exact bind_outcome_congr (hblocks _ hP.2) fun _ _ => rfl
      · exact bind_outcome_congr hline fun _ _ => rfl
    | figure => exact hT.figure_outcome hrole h hI hP
    | container =>
      simp only [reached, hrole, List.forall_mem_cons] at hP
      rw [hrole, heq] at hrole'
      rw [heq]
      simp only [block, hrole, hrole']
      exact fallback_outcome id (hblocks keepAll hP.2) hline
    | preformatted =>
      simp only [reached, hrole, List.forall_mem_cons] at hP
      have hcode := hT.code ⟨[], scope, .element name attrs cs⟩ hI hP.1 hrole
      rw [Place.change, heq] at hcode
      rw [hrole, heq] at hrole'
      rw [heq]
      simpa only [block, hrole, hrole'] using hcode
    | definitions =>
      rw [hrole, heq] at hrole'
      rw [heq]
      simp only [block, hrole, hrole']
      exact bind_outcome_congr
        (sequence_outcome_congr (hT.definitions_outcome false hinner)) fun _ _ => rfl
    | heading level =>
      rw [hrole, heq] at hrole'
      rw [heq]
      simp only [block, hrole, hrole']
      exact bind_outcome_congr hline fun _ _ => rfl
    | thematicBreak =>
      rw [hrole, heq] at hrole'
      rw [heq]
      simp only [block, hrole, hrole']
    | _ =>
      rw [hrole, heq] at hrole'
      rw [heq]
      simp only [block, hrole, hrole']
      exact hline

theorem unmoved (n : Node) : n.Throughout (Unmoved opts T I P) :=
  Node.throughout (fun _ h => ⟨fun _ => hT.block_outcome h, fun _ => hT.items_outcome h⟩) n

end Unseen

end Render

/-- A document is converted alike after a change that is not seen. -/
theorem convertTree_unseen {opts : Options} {T : Node → Node} {I : Scope → Node → Prop}
    {P : Place → Prop} (hT : Render.Unseen opts T I P) {ns : List Node}
    (hI : ∀ n ∈ ns, I [Place.documentTag] n)
    (hP : ∀ p ∈ Render.reachedAmong [Place.documentTag] Render.keepAll ns, P p) :
    (convertTree opts (ns.map T)).outcome = (convertTree opts ns).outcome := by
  have hblocks := hT.blocks_outcome (fun n _ => hT.unmoved n) [] (List.forall_mem_nil _) hI hP
  exact bind_outcome_congr (bind_outcome_congr hblocks fun _ _ => rfl) fun _ _ => rfl

end Hypermark
