import Hypermark.Convert
import Hypermark.Proofs.Recursion
import Hypermark.Proofs.TableSuccess

/-!
# When a document is converted

Nothing in the renderer can fail except where numbers are read, written or counted up to.
`Understood` is what the induction over a tree carries: a node succeeds as a block exactly when all
elements reached from it have numbers that fit, and so do its children as the items of a list.

* `block_succeeds_iff`: the step of that induction.
* `convertTree_succeeds_iff`: the exact condition for a whole document.
-/

namespace Hypermark

open Traced

namespace Render

variable {opts : Options}

/-! ## Success of the parts -/

theorem succeeds_render (scope : Scope) (nodes : List Node) :
    (Inline.render scope nodes).Succeeds := ⟨_, rfl⟩

theorem succeeds_run (scope : Scope) (nodes : List Node) : (run scope nodes).Succeeds :=
  (succeeds_bind_iff_left fun _ => succeeds_pure _).mpr (succeeds_render scope nodes)

theorem succeeds_sanitize (t : Text) : (Language.sanitize t).Succeeds := ⟨_, rfl⟩

theorem succeeds_detect (nodes : List Node) : (Language.detect nodes).Succeeds := by
  unfold Language.detect
  split
  · exact succeeds_sanitize _
  · exact succeeds_pure _

theorem fencedCode_succeeds_iff {pre : Place} :
    (fencedCode opts pre).Succeeds ↔ FenceFits opts pre.code := by
  unfold fencedCode
  rw [← succeeds_fence_iff, succeeds_bind_iff_left]
  intro _
  refine (succeeds_bind_iff_left fun _ => succeeds_pure _).mpr ?_
  split
  · exact succeeds_detect _
  · exact succeeds_pure _

theorem succeeds_definitions (scope : Scope) (started : Bool) (ns : List Node) :
    (Traced.sequence (definitions scope started ns)).Succeeds := by
  rw [succeeds_sequence_iff]
  fun_induction definitions scope started ns with
  | case1 => simp
  | case2 started ns name attrs cs h ih =>
    rw [List.forall_mem_cons]
    exact ⟨(succeeds_bind_iff_left fun _ => succeeds_pure _).mpr (succeeds_render _ _), ih⟩
  | case3 started ns name attrs cs h h' ih =>
    rw [List.forall_mem_cons]
    exact ⟨(succeeds_bind_iff_left fun _ => succeeds_pure _).mpr (succeeds_render _ _), ih⟩
  | case4 started ns name attrs cs h h' ih => exact ih
  | case5 started n ns h ih => exact ih

theorem succeeds_caption (table : Place) : (caption table).Succeeds := by
  unfold caption
  split
  · exact (succeeds_bind_iff_left fun _ => succeeds_pure _).mpr (succeeds_render _ _)
  · exact succeeds_pure _

theorem succeeds_figureCaption (parts : Figure.Parts) : (figureCaption parts).Succeeds := by
  unfold figureCaption
  split
  · exact (succeeds_bind_iff_left fun _ => succeeds_pure _).mpr (succeeds_render _ _)
  · exact succeeds_pure _

theorem succeeds_detectLanguage (figure : Place) : (Figure.detectLanguage figure).Succeeds := by
  unfold Figure.detectLanguage
  split
  · exact succeeds_sanitize _
  · exact succeeds_pure _

theorem codeFigure_succeeds_iff {opts : Options} {figure : Place} {parts : Figure.Parts}
    {before after : Traced (List Text)} :
    (codeFigure opts figure parts before after).Succeeds ↔
      FenceFits opts parts.code ∧ before.Succeeds ∧ after.Succeeds := by
  unfold codeFigure
  rw [succeeds_bind_iff_and, and_iff_right (succeeds_figureCaption parts)]
  intro caption _
  rw [succeeds_bind_iff_and, and_iff_right]
  · split
    · exact succeeds_detectLanguage figure
    · exact succeeds_pure _
  intro language _
  rw [← succeeds_fence_iff]
  refine succeeds_bind_iff_and fun _ _ => ?_
  rw [succeeds_bind_iff_and, and_iff_right ⟨(), rfl⟩]
  intro _ _
  rw [succeeds_bind_iff_and]
  intro _ _
  exact succeeds_bind_iff_left fun _ => succeeds_pure _

/-! ## Items of lists -/

theorem leading_bind_succeeds_iff {segments : List Segment} {g : Leading → List Text → Traced Text}
    (hg : ∀ first texts, (g first texts).Succeeds) :
    ((Markdown.leading segments).bind fun first =>
      (Traced.sequence (first.rest.map (·.rendering))).bind (g first)).Succeeds ↔
      ∀ s ∈ segments, s.rendering.Succeeds := by
  -- Once the marker line is settled, what is left is rendered in one go.
  have settled : ∀ first : Leading, ((Traced.pure first).bind fun first =>
      (Traced.sequence (first.rest.map (·.rendering))).bind (g first)).Succeeds ↔
        ∀ s ∈ first.rest, s.rendering.Succeeds := by
    intro first
    rw [Traced.pure_bind, succeeds_bind_iff_left (hg first), succeeds_sequence_iff,
      List.forall_mem_map]
  induction segments with
  | nil => rw [Markdown.leading, settled]
  | cons s rest ih =>
    rw [Markdown.leading]
    cases hk : s.kind with
    | nestedList => exact settled _
    | inline =>
      rw [bind_assoc, List.forall_mem_cons]
      apply succeeds_bind_iff_and
      intro t _
      split
      · exact ih
      · exact settled _
    | block =>
      rw [bind_assoc, List.forall_mem_cons]
      apply succeeds_bind_iff_and
      intro t _
      split
      · exact settled _
      · exact settled _

theorem renderItem_succeeds_iff {depth : Nat} {marker : Text} {segments : List Segment} :
    (Markdown.renderItem depth marker segments).Succeeds ↔
      ∀ s ∈ segments, s.rendering.Succeeds :=
  leading_bind_succeeds_iff fun _ _ => succeeds_pure _

theorem succeeds_runSegment (scope : Scope) (nodes : List Node) :
    ∀ s ∈ runSegment scope nodes, s.rendering.Succeeds := by
  unfold runSegment
  split
  · simp
  · rw [List.forall_mem_singleton]
    exact succeeds_render scope nodes

/-! ## The recursion -/

/-- All elements of some places have numbers that fit. -/
def AllFit (opts : Options) (ps : List Place) : Prop := ∀ p ∈ ps, NumbersFit opts p

theorem allFit_nil : AllFit opts [] := by simp [AllFit]

theorem allFit_cons {p : Place} {ps : List Place} :
    AllFit opts (p :: ps) ↔ NumbersFit opts p ∧ AllFit opts ps := List.forall_mem_cons

theorem allFit_append {ps qs : List Place} : AllFit opts (ps ++ qs) ↔ AllFit opts ps ∧ AllFit opts qs :=
  List.forall_mem_append

/-- The items of a list whose first one takes the number `due`. -/
def DueFits (due : Option Int) (ns : List Node) : Prop := ∀ k, due = some k → ItemsFit k ns

/-- What is known of a node once all nodes below it are understood: when it succeeds as a block,
when its children do as the items of a list, and when the rows in it do. -/
structure Understood (opts : Options) (n : Node) : Prop where
  block : ∀ scope, (block opts scope n).Succeeds ↔ AllFit opts (reached scope n)
  items : ∀ scope depth due, (items opts scope depth due n.children).Succeeds ↔
    DueFits due n.children ∧ AllFit opts (reachedInItems scope n.children)
  rows : ∀ scope, (∀ row ∈ rowsOf opts scope n, ∀ c ∈ row.cells, c.content.Succeeds) ↔
    AllFit opts (reachedInRow scope n)

theorem dueFits_none (ns : List Node) : DueFits none ns := nofun

theorem dueFits_some {k : Int} {ns : List Node} : DueFits (some k) ns ↔ ItemsFit k ns :=
  ⟨fun h => h k rfl, fun h _ hk => Option.some.inj hk ▸ h⟩

theorem firstNumber_eq_ok_iff {n : Node} {first : Option Int} :
    firstNumber true n = .ok first ↔ Readable (n.attribute? "start".toList) ∧
      first = some (((numeral? (n.attribute? "start".toList)).map Numeral.value).getD 1) := by
  rw [firstNumber, if_pos rfl, map_readOptional_eq_ok_iff]

theorem itemNumber_eq_ok_iff {k : Int} {n : Node} {number : Option Int} :
    itemNumber (some k) n = .ok number ↔
      Readable (n.attribute? "value".toList) ∧ number = some (numberOf k n) := by
  rw [itemNumber, map_readOptional_eq_ok_iff, numberOf]

theorem exists_itemMarker_iff {depth : Nat} {k : Int} :
    (∃ t, itemMarker depth (some k) = .ok t) ↔ Writable k := by
  rw [← exists_writeInteger_iff, itemMarker]
  cases Text.writeInteger k with
  | error e => simp [Except.map]
  | ok t => simp [Except.map]

theorem dueFits_item {due : Option Int} {n : Node} {ns : List Node} (hli : n.tag = "li".toList)
    (depth : Nat) : DueFits due (n :: ns) ↔ ∃ number, itemNumber due n = .ok number ∧
      (∃ marker, itemMarker depth number = .ok marker) ∧ DueFits (number.map (· + 1)) ns := by
  cases due with
  | none =>
    refine iff_of_true (dueFits_none _) ⟨none, rfl, ⟨_, rfl⟩, dueFits_none _⟩
  | some k =>
    rw [dueFits_some, ItemsFit, if_pos hli]
    simp only [itemNumber_eq_ok_iff]
    constructor
    · rintro ⟨hread, hwrite, hrest⟩
      exact ⟨_, ⟨hread, rfl⟩, exists_itemMarker_iff.mpr hwrite, dueFits_some.mpr hrest⟩
    · rintro ⟨number, ⟨hread, rfl⟩, hmarker, hrest⟩
      exact ⟨hread, exists_itemMarker_iff.mp hmarker, dueFits_some.mp hrest⟩

/-- What stands in for content without blocks never fails. -/
theorem succeeds_fallback (scope : Scope) (nodes : List Node) (f : Text → Text)
    (parts : List Text) :
    (if Text.allBlank (Text.joinBlocks parts) then Inline.render scope nodes
      else Traced.pure (f (Text.joinBlocks parts))).Succeeds := by
  split
  · exact succeeds_render scope nodes
  · exact succeeds_pure _

/-- A list as a block of its own or inside an item. -/
theorem list_succeeds_iff {name : Text} {attrs : Attributes} {cs : List Node} {ordered : Bool}
    (hrole : (Node.element name attrs cs).role = .list ordered)
    (h : ∀ scope depth due, (items opts scope depth due cs).Succeeds ↔
      DueFits due cs ∧ AllFit opts (reachedInItems scope cs)) (scope : Scope) (depth : Nat) :
    ((ofSized (firstNumber ordered (.element name attrs cs))).bind fun first =>
      (items opts (name :: scope) depth first cs).bind (Traced.pure ∘ Text.unlines)).Succeeds ↔
      AllFit opts (reached scope (.element name attrs cs)) := by
  have hitems : ∀ first, ((items opts (name :: scope) depth first cs).bind
      (Traced.pure ∘ Text.unlines)).Succeeds ↔
        DueFits first cs ∧ AllFit opts (reachedInItems (name :: scope) cs) := by
    intro first
    exact (succeeds_bind_iff_left fun _ => succeeds_pure _).trans
      (h (name :: scope) depth first)
  have hreached : reached scope (.element name attrs cs) =
      ⟨[], scope, .element name attrs cs⟩ :: reachedInItems (name :: scope) cs := by
    simp only [reached, hrole]
  rw [hreached, allFit_cons]
  cases ordered with
  | false =>
    have hfits : NumbersFit opts ⟨[], scope, .element name attrs cs⟩ := by simp [NumbersFit, hrole]
    rw [and_iff_right hfits]
    exact (hitems none).trans (and_iff_right (dueFits_none cs))
  | true =>
    have hfits : NumbersFit opts ⟨[], scope, .element name attrs cs⟩ ↔
        ListFits (.element name attrs cs) := by simp [NumbersFit, hrole]
    rw [hfits, ListFits, and_assoc, ← dueFits_some, succeeds_ofSized_bind_iff]
    simp only [firstNumber_eq_ok_iff, hitems]
    constructor
    · rintro ⟨first, ⟨hread, rfl⟩, hdue, hbelow⟩
      exact ⟨hread, hdue, hbelow⟩
    · rintro ⟨hread, hdue, hbelow⟩
      exact ⟨_, ⟨hread, rfl⟩, hdue, hbelow⟩

section Siblings

variable {ns : List Node} (h : ∀ n ∈ ns, n.Throughout (Understood opts))
include h

theorem blocks_succeeds_iff {scope : Scope} {keep : Nat → Bool} {pending : List Node} :
    (blocks opts scope keep pending ns).Succeeds ↔ AllFit opts (reachedAmong scope keep ns) := by
  induction ns generalizing keep pending with
  | nil =>
    rw [blocks, reachedAmong]
    exact iff_of_true (succeeds_run scope pending) allFit_nil
  | cons n ns ih =>
    rw [List.forall_mem_cons] at h
    rw [blocks, reachedAmong, allFit_append]
    cases hk : keep 0 with
    | false =>
      simp only [Bool.not_false, if_true, Bool.false_and, Bool.false_eq_true, if_false]
      rw [ih h.2, and_iff_right allFit_nil]
    | true =>
      simp only [Bool.not_true, Bool.false_eq_true, if_false, Bool.true_and]
      by_cases hb : n.isBlock = true
      · rw [if_pos hb, if_pos hb, succeeds_bind_iff_and, and_iff_right (succeeds_run scope pending)]
        intro before _
        rw [← h.1.here.block scope]
        apply succeeds_bind_iff_and
        intro t _
        rw [succeeds_bind_iff_left fun _ => succeeds_pure _, ih h.2]
      · rw [if_neg hb, if_neg hb, and_iff_right allFit_nil]
        split
        · rw [ih h.2]
        · rw [ih h.2]

theorem segments_succeed_iff {scope : Scope} {depth : Nat} {pending : List Node} :
    (∀ s ∈ segments opts scope depth pending ns, s.rendering.Succeeds) ↔
      AllFit opts (reachedAmong scope keepAll ns) := by
  induction ns generalizing pending with
  | nil =>
    rw [segments, reachedAmong]
    exact iff_of_true (succeeds_runSegment scope pending) allFit_nil
  | cons n ns ih =>
    rw [List.forall_mem_cons] at h
    have hrest : ∀ pending, (∀ s ∈ segments opts scope depth pending ns, s.rendering.Succeeds) ↔
        AllFit opts (reachedAmong scope (fun i => keepAll (i + 1)) ns) := fun pending => ih h.2
    rw [reachedAmong, allFit_append]
    by_cases hb : n.isBlock = true
    · -- A run before the block or list never fails.
      have hrun : ∀ s, (∀ s' ∈ runSegment scope pending ++ s :: segments opts scope depth [] ns,
          s'.rendering.Succeeds) ↔
            s.rendering.Succeeds ∧ AllFit opts (reachedAmong scope (fun i => keepAll (i + 1)) ns) := by
        intro s
        rw [List.forall_mem_append, and_iff_right (succeeds_runSegment scope pending),
          List.forall_mem_cons, hrest]
      rw [keepAll, Bool.true_and, if_pos hb]
      by_cases hl : ∃ ordered, n.role = .list ordered
      · obtain ⟨ordered, hrole⟩ := hl
        cases n with
        | element name attrs cs =>
          rw [segments_list hrole, hrun]
          exact and_congr_left fun _ => list_succeeds_iff hrole h.1.here.items scope (depth + 1)
        | text t => cases hrole
        | comment t => cases hrole
        | directive k t => cases hrole
      · rw [segments_block hb (not_exists.mp hl), hrun, h.1.here.block]
    · rw [segments_inline (Bool.eq_false_iff.mpr hb), if_neg (by simp [hb]), hrest,
        and_iff_right allFit_nil]

theorem items_succeeds_iff {scope : Scope} {depth : Nat} {due : Option Int} :
    (items opts scope depth due ns).Succeeds ↔
      DueFits due ns ∧ AllFit opts (reachedInItems scope ns) := by
  induction ns generalizing due with
  | nil =>
    rw [items, reachedInItems]
    exact iff_of_true (succeeds_pure []) ⟨fun _ _ => trivial, allFit_nil⟩
  | cons n ns ih =>
    rw [List.forall_mem_cons] at h
    have hskip : n.tag ≠ "li".toList → (DueFits due (n :: ns) ↔ DueFits due ns) := by
      intro hli
      simp only [DueFits, ItemsFit, if_neg hli]
    cases n with
    | element name attrs cs =>
      simp only [items, reachedInItems]
      by_cases hli : Text.lower name = "li".toList
      · rw [if_pos hli, if_pos hli, allFit_append, dueFits_item (n := .element name attrs cs) hli depth,
          succeeds_ofSized_bind_iff]
        have hcontent : ∀ marker, (Markdown.renderItem depth marker
            (segments opts (name :: scope) depth [] cs)).Succeeds ↔
              AllFit opts (reachedAmong (name :: scope) keepAll cs) := fun marker => by
          rw [renderItem_succeeds_iff]
          exact segments_succeed_iff fun c hc => h.1.child hc
        have hitem : ∀ number, ((ofSized (itemMarker depth number)).bind fun marker =>
            (Markdown.renderItem depth marker (segments opts (name :: scope) depth [] cs)).bind
              fun item => (items opts scope depth (number.map (· + 1)) ns).bind
                fun rest => Traced.pure (item :: rest)).Succeeds ↔
              (∃ marker, itemMarker depth number = .ok marker) ∧
                AllFit opts (reachedAmong (name :: scope) keepAll cs) ∧
                  DueFits (number.map (· + 1)) ns ∧ AllFit opts (reachedInItems scope ns) := by
          intro number
          rw [← succeeds_ofSized_iff]
          apply succeeds_bind_iff_and
          intro marker _
          rw [← hcontent marker]
          apply succeeds_bind_iff_and
          intro item _
          rw [succeeds_bind_iff_left fun _ => succeeds_pure _, ih h.2]
        simp only [hitem]
        constructor
        · rintro ⟨number, hnumber, hmarker, hcs, hdue, hrest⟩
          exact ⟨⟨number, hnumber, hmarker, hdue⟩, hcs, hrest⟩
        · rintro ⟨⟨number, hnumber, hmarker, hdue⟩, hcs, hrest⟩
          exact ⟨number, hnumber, hmarker, hcs, hdue, hrest⟩
      · rw [if_neg hli, if_neg hli, List.nil_append, ih h.2, hskip hli]
    | text t => simp only [items, reachedInItems, List.nil_append, ih h.2, hskip (by simp [Node.tag])]
    | comment t =>
      simp only [items, reachedInItems, List.nil_append, ih h.2, hskip (by simp [Node.tag])]
    | directive k t =>
      simp only [items, reachedInItems, List.nil_append, ih h.2, hskip (by simp [Node.tag])]

theorem cells_succeed_iff {scope : Scope} :
    (∀ c ∈ cellsAmong opts scope ns, c.content.Succeeds) ↔
      AllFit opts (reachedInCells scope ns) := by
  induction ns with
  | nil =>
    rw [cellsAmong, reachedInCells]
    exact iff_of_true (by simp) allFit_nil
  | cons n ns ih =>
    rw [List.forall_mem_cons] at h
    cases n with
    | element name attrs cs =>
      simp only [cellsAmong, reachedInCells, allFit_append]
      by_cases hc : isCell (.element name attrs cs) = true
      · rw [if_pos hc, if_pos hc, List.forall_mem_cons, ih h.2]
        refine and_congr_left fun _ => ?_
        rw [succeeds_bind_iff_left (succeeds_fallback _ _ _)]
        exact blocks_succeeds_iff fun c hc => h.1.child hc
      · rw [if_neg hc, if_neg hc, and_iff_right allFit_nil, ih h.2]
    | text t => simp only [cellsAmong, reachedInCells, List.nil_append, ih h.2]
    | comment t => simp only [cellsAmong, reachedInCells, List.nil_append, ih h.2]
    | directive k t => simp only [cellsAmong, reachedInCells, List.nil_append, ih h.2]

theorem rows_succeed_iff {scope : Scope} :
    (∀ row ∈ rowsAmong opts scope ns, ∀ c ∈ row.cells, c.content.Succeeds) ↔
      AllFit opts (reachedInRows scope ns) := by
  induction ns with
  | nil => 
    rw [rowsAmong, reachedInRows]
    exact iff_of_true (by simp) allFit_nil
  | cons n ns ih =>
    rw [List.forall_mem_cons] at h
    rw [rowsAmong, reachedInRows, allFit_append, List.forall_mem_append, ih h.2, h.1.here.rows]

end Siblings

theorem table_succeeds_iff {name : Text} {attrs : Attributes} {cs : List Node} {scope : Scope}
    (hrole : (Node.element name attrs cs).role = .table)
    (h : ∀ c ∈ cs, c.Throughout (Understood opts)) :
    (block opts scope (.element name attrs cs)).Succeeds ↔
      AllFit opts (reached scope (.element name attrs cs)) := by
  simp only [block, reached, hrole, allFit_cons, NumbersFit]
  by_cases hn : ((⟨[], scope, .element name attrs cs⟩ : Place).findTag? "table".toList).isSome
  · rw [if_pos hn, if_pos hn]
    exact iff_of_true ⟨_, rfl⟩ ⟨.inl hn, allFit_nil⟩
  · rw [if_neg hn, if_neg hn, render_succeeds_iff (succeeds_caption _), rows_succeed_iff h,
      map_spansOfRow_rowsAmong opts [] (name :: scope) 0 cs, and_comm, or_iff_right hn,
      spanRows_eq]
    rfl

theorem block_succeeds_iff {n : Node} (h : ∀ c ∈ n.children, c.Throughout (Understood opts))
    (scope : Scope) : (block opts scope n).Succeeds ↔ AllFit opts (reached scope n) := by
  cases n with
  | element name attrs cs =>
    have hinline : (Inline.render (name :: scope) cs).Succeeds := succeeds_render _ _
    have hblocks : ∀ keep, (blocks opts (name :: scope) keep [] cs).Succeeds ↔
        AllFit opts (reachedAmong (name :: scope) keep cs) := fun keep => blocks_succeeds_iff h
    have hmapped : ∀ f : Text → Text,
        ((Inline.render (name :: scope) cs).bind (Traced.pure ∘ f)).Succeeds :=
      fun f => (succeeds_bind_iff_left fun _ => succeeds_pure _).mpr hinline
    cases hrole : (Node.element name attrs cs).role with
    | table => exact table_succeeds_iff hrole h
    | list ordered =>
      have hlist := list_succeeds_iff hrole (fun _ _ _ => items_succeeds_iff h) scope 0
      simpa only [block, hrole] using hlist
    | quote =>
      simp only [block, reached, hrole, allFit_cons, NumbersFit, true_and, ← hblocks]
      by_cases hany : cs.any Node.isBlock = true
      · rw [if_pos hany]
        exact succeeds_bind_iff_left fun _ => succeeds_pure _
      · rw [if_neg hany, hblocks, reachedAmong_of_inline _ _ (Bool.eq_false_iff.mpr hany)]
        exact iff_of_true (hmapped _) allFit_nil
    | figure =>
      simp only [block, reached, hrole, allFit_cons, NumbersFit]
      cases Figure.parts? ⟨[], scope, .element name attrs cs⟩ with
      | some parts =>
        have hfence : (∀ ps ∈ some parts, FenceFits opts ps.code) ↔ FenceFits opts parts.code := by
          simp only [Option.mem_some_iff, forall_eq']
        rw [hfence]
        show (codeFigure _ _ _ _ _).Succeeds ↔ _ ∧ AllFit opts (_ ++ _)
        rw [codeFigure_succeeds_iff, allFit_append, hblocks, hblocks]
      | none =>
        rw [and_iff_right fun ps hps => absurd hps (Option.not_mem_none ps)]
        show (Traced.bind _ _).Succeeds ↔ AllFit opts (reachedAmong (name :: scope) keepAll cs)
        rw [← hblocks]
        exact succeeds_bind_iff_left (succeeds_fallback _ _ id)
    | container =>
      simp only [block, reached, hrole, allFit_cons, NumbersFit, true_and, ← hblocks]
      exact succeeds_bind_iff_left (succeeds_fallback _ _ id)
    | thematicBreak =>
      simp only [block, reached, hrole, allFit_cons, NumbersFit, true_and]
      exact iff_of_true (succeeds_pure _) allFit_nil
    | heading level =>
      simp only [block, reached, hrole, allFit_cons, NumbersFit, true_and]
      exact iff_of_true (hmapped _) allFit_nil
    | preformatted =>
      simp only [block, reached, hrole, allFit_cons, NumbersFit]
      exact fencedCode_succeeds_iff.trans (and_iff_left allFit_nil).symm
    | definitions =>
      simp only [block, reached, hrole, allFit_cons, NumbersFit, true_and]
      exact iff_of_true ((succeeds_bind_iff_left fun _ => succeeds_pure _).mpr
        (succeeds_definitions _ _ _)) allFit_nil
    | _ =>
      simp only [block, reached, hrole, allFit_cons, NumbersFit, true_and]
      exact iff_of_true hinline allFit_nil
  | text t =>
    simp only [block, reached]
    exact iff_of_true (succeeds_pure _) allFit_nil
  | comment t =>
    simp only [block, reached]
    exact iff_of_true (succeeds_pure _) allFit_nil
  | directive k t =>
    simp only [block, reached]
    exact iff_of_true (succeeds_pure _) allFit_nil

theorem understood (n : Node) : n.Throughout (Understood opts) := by
  refine Node.throughout (fun n h => ?_) n
  refine ⟨block_succeeds_iff h, fun _ _ _ => items_succeeds_iff h, fun scope => ?_⟩
  cases n with
  | element name attrs cs =>
    simp only [rowsOf, reachedInRow, allFit_append, List.forall_mem_append]
    refine and_congr ?_ (rows_succeed_iff h)
    split
    · rw [List.forall_mem_singleton]
      exact cells_succeed_iff h
    · exact iff_of_true (by simp) allFit_nil
  | text t =>
    simp only [rowsOf, reachedInRow]
    exact iff_of_true (by simp) allFit_nil
  | comment t =>
    simp only [rowsOf, reachedInRow]
    exact iff_of_true (by simp) allFit_nil
  | directive k t =>
    simp only [rowsOf, reachedInRow]
    exact iff_of_true (by simp) allFit_nil

end Render

/-! ## Documents -/

theorem succeeds_convertTree_iff {opts : Options} {ns : List Node} :
    (convertTree opts ns).Succeeds ↔
      Render.AllFit opts (Render.reachedAmong [Place.documentTag] Render.keepAll ns) := by
  have hdocument : (convertTree opts ns).Succeeds ↔
      (Render.siblings opts [Place.documentTag] ns).Succeeds :=
    succeeds_bind_iff_left fun _ => succeeds_pure _
  have hsiblings : (Render.siblings opts [Place.documentTag] ns).Succeeds ↔
      (Render.blocks opts [Place.documentTag] Render.keepAll [] ns).Succeeds :=
    succeeds_bind_iff_left fun _ => succeeds_pure _
  exact (hdocument.trans hsiblings).trans
    (Render.blocks_succeeds_iff fun n _ => Render.understood n)

/-- In a document that is converted, the numbers of whatever is rendered in one of its blocks fit. -/
theorem numbersFit_of_reached {opts : Options} {ns : List Node} (h : (convertTree opts ns).Succeeds)
    {n : Node} (hn : n ∈ ns) (hblock : n.isBlock = true) {p : Place}
    (hp : p ∈ Render.reached [Place.documentTag] n) : Render.NumbersFit opts p :=
  succeeds_convertTree_iff.mp h p (Render.reached_subset_reachedAmong _ hn hblock hp)

/-- A document is converted exactly when all numbers that are read, written or counted up to fit;
nothing else can fail. -/
theorem convertTree_succeeds_iff (opts : Options) (ns : List Node) :
    (∃ t, (convertTree opts ns).outcome = .ok t) ↔
      ∀ p ∈ Render.reachedAmong [Place.documentTag] Render.keepAll ns, Render.NumbersFit opts p :=
  succeeds_convertTree_iff

-- A row of so many cells is more than there can be.
example : (convertTree Options.standard
    [.element "table".toList [] [.element "tr".toList []
      [.element "th".toList [("colspan".toList, some (List.replicate 20 '9'))]
        [.text "x".toList]]]]).outcome = .error (.oversize .index) := rfl

/-- A numbered list whose start has one digit too many. -/
theorem oversized_start_fails :
    ¬ ∃ t, (convertTree Options.standard
      [.element "ol".toList [("start".toList, some (List.replicate 4301 '9'))]
        [.element "li".toList [] [.text "x".toList]]]).outcome = .ok t := by
  intro h
  have hlist := succeeds_convertTree_iff.mp h _ (List.mem_cons_self ..)
  exact Render.not_readable_of_nines (Nat.le_refl 4300) hlist.1

end Hypermark
