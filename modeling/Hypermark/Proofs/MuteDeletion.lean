import Hypermark.Proofs.HiddenBlocks
import Hypermark.Proofs.MuteSearch
import Hypermark.Proofs.RawTable

/-!
# Documents without their mute nodes

A document does not change when comments and directives are taken out of it, as long as no table
has another one in it and nothing but mute nodes comes between a dropped link and a separator inside
any element.  Blocks pass mute nodes over; runs of inline nodes carry them along and add nothing for
them; a run of an item that has nothing else is rendered as nothing.

* `Alike`: what is known of a node once everything below it is understood.
* `blocks_pared`, `segments_pared`, `items_pared`, `rowsAmong_pared`: the parts of the recursion.
* `mute_nodes_unseen`: the whole document, with any mute nodes taken away.
* `parted_separator_shows`: a comment that brings back the pipe after a dropped link.
-/

namespace Hypermark

open Traced Node

/-- No table stands in this one. -/
def Node.Unnested (n : Node) : Prop := n.role = .table → "table".toList ∉ tagsAll n.children

instance : DecidablePred Unnested := fun n =>
  inferInstanceAs (Decidable (n.role = .table → "table".toList ∉ tagsAll n.children))

namespace Render

open Inline

/-! ## Parts without recursion -/

section Lines

variable {ns : List Node} (hlines : ∀ n ∈ ns, n.Throughout Unparted)
include hlines

theorem run_pared (hparted : partsSeparator false false ns = false) (scope : Scope) :
    run scope (paredAll ns) = run scope ns := by
  rw [run, run, render_pared hlines hparted]

theorem runSegment_pared (hparted : partsSeparator false false ns = false) (scope : Scope) :
    Segment.ButIdle (runSegment scope ns) (runSegment scope (paredAll ns)) := by
  have hrender := render_pared hlines hparted scope
  cases hns : paredAll ns with
  | nil =>
    rw [hns] at hrender
    cases ns with
    | nil => exact .nil
    | cons n ns =>
      refine .idle rfl ?_ .nil
      rw [← hrender, render, collapse, buffer, addNodes_nil, noticesAll]
      rfl
  | cons m ms =>
    rw [hns] at hrender
    cases ns with
    | nil => cases hns
    | cons n ns => exact .cons rfl hrender .nil

theorem definitions_pared (scope : Scope) (started : Bool) :
    definitions scope started (paredAll ns) = definitions scope started ns := by
  induction ns generalizing started with
  | nil => rfl
  | cons n ns ih =>
    rw [List.forall_mem_cons] at hlines
    cases n with
    | element name attrs cs =>
      have hline : Inline.render (name :: scope) (paredAll cs) =
          Inline.render (name :: scope) cs :=
        render_pared (fun c hc => hlines.1.child hc) hlines.1.here (name :: scope)
      rw [paredAll_cons rfl, pared, definitions, definitions, hline, ih hlines.2, ih hlines.2]
    | text t => exact ih hlines.2 started
    | comment t => exact ih hlines.2 started
    | directive k t =>
      rw [paredAll]
      split
      · exact ih hlines.2 started
      · exact ih hlines.2 started

end Lines

/-! ## What is found by searches -/

/-- The content of an element that is found by its tag. -/
theorem found_pared {R : List Nat → List Nat → Prop} {c c' : Place} (h : c.Moved R c')
    (hlines : c.node.Throughout Unparted) :
    Inline.render c'.innerScope c'.node.children = Inline.render c.innerScope c.node.children := by
  rw [h.innerScope_eq, h.node, children_pared,
    render_pared (fun n hn => hlines.child hn) hlines.here]

section Found

variable {scope : Scope} {name : Text} {attrs : Attributes} {cs : List Node}
  (hlines : ∀ c ∈ cs, c.Throughout Unparted)

theorem nested_pared : ((⟨[], scope, .element name attrs (paredAll cs)⟩ : Place).findTag?
      "table".toList).isSome =
    ((⟨[], scope, .element name attrs cs⟩ : Place).findTag? "table".toList).isSome :=
  isSome_eq_of_rel ((movedBelow_pared scope (.element name attrs cs)).rel_findTag? _)

theorem nested_of_unnested (h : "table".toList ∉ tagsAll cs) :
    ((⟨[], scope, .element name attrs cs⟩ : Place).findTag? "table".toList).isSome = false := by
  rw [← map_tag_elementsAmong [] (name :: scope) 0 cs] at h
  refine Option.isSome_eq_false_iff.mpr (Option.isNone_iff_eq_none.mpr ?_)
  refine List.find?_eq_none.mpr fun q hq htag => h ?_
  exact List.mem_map.mpr ⟨q, hq, beq_iff_eq.mp htag⟩

include hlines

theorem caption_pared : caption ⟨[], scope, .element name attrs (paredAll cs)⟩ =
    caption ⟨[], scope, .element name attrs cs⟩ := by
  have hcaption := (movedBelow_pared scope (.element name attrs cs)).rel_findTag? "caption".toList
  rw [pared] at hcaption
  unfold caption
  generalize hc : (⟨[], scope, .element name attrs cs⟩ : Place).findTag? "caption".toList = c,
    (⟨[], scope, .element name attrs (paredAll cs)⟩ : Place).findTag? "caption".toList = c'
    at hcaption
  cases hcaption with
  | none => rfl
  | some hmoved =>
    have hbelow := Place.throughout_of_mem_descendants (p := ⟨[], scope, .element name attrs cs⟩)
      hlines (List.mem_of_find?_eq_some hc)
    exact congrArg (Traced.bind · _) (found_pared hmoved hbelow)

theorem codeFigure_pared (opts : Options) {parts parts' : Figure.Parts}
    (hparts : Figure.parts? ⟨[], scope, .element name attrs cs⟩ = some parts)
    (h : parts.Moved cs parts') (before after : Traced (List Text)) :
    codeFigure opts ⟨[], scope, .element name attrs (paredAll cs)⟩ parts' before after =
      codeFigure opts ⟨[], scope, .element name attrs cs⟩ parts before after := by
  have hcaption : figureCaption parts' = figureCaption parts := by
    have hmoved := h.caption
    unfold figureCaption
    generalize hc : parts.caption = c, parts'.caption = c' at hmoved
    cases hmoved with
    | none => rfl
    | some hmoved =>
      rw [(Figure.of_parts?_eq_some hparts).2.2] at hc
      have hbelow := Place.throughout_of_mem_descendants
        (p := ⟨[], scope, .element name attrs cs⟩) hlines (List.mem_of_find?_eq_some hc)
      exact congrArg (Traced.bind · _) (found_pared hmoved hbelow)
  have hlanguage := Figure.detectLanguage_pared scope (.element name attrs cs)
  rw [pared] at hlanguage
  rw [codeFigure, codeFigure, hcaption, hlanguage, h.lines, Figure.Parts.code, h.lines,
    Figure.Parts.code]

end Found

/-! ## The recursion -/

/-- What is known of a node once everything below it is understood: without the mute nodes below it,
it comes to the same. -/
structure Alike (opts : Options) (n : Node) : Prop where
  block : ∀ scope, block opts scope n.pared = block opts scope n
  items : ∀ scope depth due, items opts scope depth due (paredAll n.children) =
    items opts scope depth due n.children
  rows : ∀ scope, rowsOf opts scope n.pared = rowsOf opts scope n

section Siblings

variable {opts : Options} {ns : List Node} (h : ∀ n ∈ ns, n.Throughout (Alike opts))
include h

theorem blocks_pending_pared (scope : Scope) {keep keep' : Nat → Bool}
    (hkeep : ∀ i, Stays ns i → keep' (rank ns i) = keep i) (pending : List Node)
    (hpending : ∀ n ∈ pending, n.isMute = false ∧ n.Throughout Unparted)
    (hlines : ∀ n ∈ ns, n.Throughout Unparted) :
    blocks opts scope keep' (paredAll pending) (paredAll ns) =
      blocks opts scope keep pending ns := by
  have hrun : ∀ pending : List Node, (∀ n ∈ pending, n.isMute = false ∧ n.Throughout Unparted) →
      run scope (paredAll pending) = run scope pending := fun pending hp =>
    run_pared (fun n hn => (hp n hn).2)
      (partsSeparator_of_not_mute false fun n hn => (hp n hn).1) scope
  induction ns generalizing keep keep' pending with
  | nil => rw [paredAll, blocks, blocks, hrun pending hpending]
  | cons n ns ih =>
    rw [List.forall_mem_cons] at h hlines
    cases hn : n.isMute with
    | true =>
      obtain ⟨hblock, hshown, -⟩ := not_block_of_mute hn
      have hshift : ∀ i, Stays ns i → keep' (rank ns i) = keep (i + 1) := fun i hi => by
        rw [← hkeep (i + 1) hi, rank, if_pos hn]
        rfl
      rw [paredAll_cons_of_mute hn, blocks, hblock, hshown,
        ih h.2 hshift pending hpending hlines.2]
      split
      · rfl
      · rfl
    | false =>
      have hshift : ∀ i, Stays ns i → keep' (rank ns i + 1) = keep (i + 1) := fun i hi => by
        rw [← hkeep (i + 1) hi, rank, if_neg (Bool.eq_false_iff.mp hn)]
      have hrest : ∀ pending : List Node,
          (∀ n ∈ pending, n.isMute = false ∧ n.Throughout Unparted) →
          blocks opts scope (fun i => keep' (i + 1)) (paredAll pending) (paredAll ns) =
            blocks opts scope (fun i => keep (i + 1)) pending ns := fun pending hp =>
        ih h.2 hshift pending hp hlines.2
      have hmore : ∀ m ∈ pending ++ [n], m.isMute = false ∧ m.Throughout Unparted :=
        List.forall_mem_append.mpr ⟨hpending, (List.forall_mem_singleton ..).mpr ⟨hn, hlines.1⟩⟩
      have hnone := hrest [] (List.forall_mem_nil _)
      have hall := hrest (pending ++ [n]) hmore
      rw [paredAll] at hnone
      rw [paredAll_append, paredAll_cons hn, paredAll] at hall
      rw [paredAll_cons hn, blocks, blocks, ← hkeep 0 (stays_zero_iff.mpr hn), rank, isBlock_pared,
        isShown_pared, h.1.here.block, hrun pending hpending, hnone, hall, hrest pending hpending]

theorem blocks_pared (scope : Scope) {keep keep' : Nat → Bool}
    (hkeep : ∀ i, Stays ns i → keep' (rank ns i) = keep i)
    (hlines : ∀ n ∈ ns, n.Throughout Unparted) :
    blocks opts scope keep' [] (paredAll ns) = blocks opts scope keep [] ns :=
  blocks_pending_pared h scope hkeep [] (List.forall_mem_nil _) hlines

theorem segments_pared (scope : Scope) (depth : Nat) {pending : List Node}
    (hpending : ∀ n ∈ pending, n.Throughout Unparted) (hlines : ∀ n ∈ ns, n.Throughout Unparted)
    (hparted : partsSeparator false false (pending ++ ns) = false) :
    Segment.ButIdle (segments opts scope depth pending ns)
      (segments opts scope depth (paredAll pending) (paredAll ns)) := by
  induction ns generalizing pending with
  | nil =>
    rw [List.append_nil] at hparted
    rw [paredAll, segments, segments]
    exact runSegment_pared hpending hparted scope
  | cons n ns ih =>
    rw [List.forall_mem_cons] at h hlines
    cases hb : n.isBlock with
    | false =>
      have hmore : ∀ m ∈ pending ++ [n], m.Throughout Unparted :=
        List.forall_mem_append.mpr ⟨hpending, (List.forall_mem_singleton ..).mpr hlines.1⟩
      have hrest := ih h.2 hmore hlines.2 (by rwa [List.append_assoc])
      rw [segments_inline hb]
      rw [paredAll_append, paredAll] at hrest
      cases hn : n.isMute with
      | true =>
        rw [if_pos hn, paredAll, List.append_nil] at hrest
        rwa [paredAll_cons_of_mute hn]
      | false =>
        rw [if_neg (Bool.eq_false_iff.mp hn)] at hrest
        rw [paredAll_cons hn, segments_inline ((isBlock_pared n).trans hb)]
        exact hrest
    | true =>
      have hn : n.isMute = false := Bool.eq_false_iff.mpr fun hn => by
        rw [(not_block_of_mute hn).1] at hb
        cases hb
      rw [partsSeparator_append_block _ _ _ hb, Bool.or_eq_false_iff] at hparted
      have hrun := runSegment_pared hpending hparted.1 scope
      have hrest := ih h.2 (List.forall_mem_nil _) hlines.2 hparted.2
      rw [paredAll_cons hn]
      -- a list in an item goes deeper by its items; rendered as a block it would start anew
      by_cases hl : ∃ ordered, n.role = .list ordered
      · obtain ⟨ordered, hrole⟩ := hl
        cases n with
        | element name attrs cs =>
          have hitems : ∀ first, items opts (name :: scope) (depth + 1) first (paredAll cs) =
              items opts (name :: scope) (depth + 1) first cs :=
            h.1.here.items (name :: scope) (depth + 1)
          have hrole' := (role_pared (.element name attrs cs)).trans hrole
          rw [pared] at hrole' ⊢
          rw [segments_list hrole, segments_list hrole']
          refine hrun.append (.cons rfl ?_ hrest)
          dsimp only
          simp only [hitems]
          rfl
        | text t => cases hb
        | comment t => cases hb
        | directive k t => cases hb
      · have hl' : ∀ ordered, n.pared.role ≠ .list ordered := by
          rw [role_pared]
          exact not_exists.mp hl
        rw [segments_block hb (not_exists.mp hl),
          segments_block ((isBlock_pared n).trans hb) hl']
        exact hrun.append (.cons rfl (h.1.here.block scope) hrest)

theorem items_pared (hlines : ∀ n ∈ ns, n.Throughout Unparted) {scope : Scope} (depth : Nat)
    (due : Option Int) :
    items opts scope depth due (paredAll ns) = items opts scope depth due ns := by
  induction ns generalizing due with
  | nil => rfl
  | cons n ns ih =>
    rw [List.forall_mem_cons] at h hlines
    cases n with
    | element name attrs cs =>
      have hnumber : itemNumber due (.element name attrs (paredAll cs)) =
          itemNumber due (.element name attrs cs) := rfl
      have hsegments := segments_pared (fun c hc => h.1.child hc) (name :: scope) depth
        (List.forall_mem_nil _) (fun c hc => hlines.1.child hc) hlines.1.here
      have hitem := Markdown.renderItem_butIdle depth hsegments
      have hrest := ih h.2 hlines.2
      rw [paredAll_cons rfl, pared, items, items, hnumber]
      simp only [hrest]
      split
      · exact congrArg _ (funext fun number => congrArg _ (funext fun marker =>
          congrArg (Traced.bind · _) (hitem marker)))
      · rfl
    | text t => exact ih h.2 hlines.2 due
    | comment t => exact ih h.2 hlines.2 due
    | directive k t =>
      rw [paredAll]
      split
      · exact ih h.2 hlines.2 due
      · exact ih h.2 hlines.2 due

/-- An element that is rendered in a line if its blocks come to nothing. -/
theorem fallback_pared (scope : Scope) (hlines : ∀ n ∈ ns, n.Throughout Unparted)
    (hparted : partsSeparator false false ns = false) (f : Text → Text) :
    ((blocks opts scope keepAll [] (paredAll ns)).bind fun parts =>
      if Text.allBlank (Text.joinBlocks parts) then Inline.render scope (paredAll ns)
      else Traced.pure (f (Text.joinBlocks parts))) =
    (blocks opts scope keepAll [] ns).bind fun parts =>
      if Text.allBlank (Text.joinBlocks parts) then Inline.render scope ns
      else Traced.pure (f (Text.joinBlocks parts)) := by
  have hblocks : blocks opts scope keepAll [] (paredAll ns) = blocks opts scope keepAll [] ns :=
    blocks_pared h scope (fun _ _ => rfl) hlines
  rw [hblocks, render_pared hlines hparted]

theorem cellsAmong_pared {scope : Scope} (hlines : ∀ n ∈ ns, n.Throughout Unparted) :
    cellsAmong opts scope (paredAll ns) = cellsAmong opts scope ns := by
  induction ns with
  | nil => rfl
  | cons n ns ih =>
    rw [List.forall_mem_cons] at h hlines
    have hrest := ih h.2 hlines.2
    cases n with
    | element name attrs cs =>
      have hcell := isCell_pared (.element name attrs cs)
      have hcontent := fallback_pared (fun c hc => h.1.child hc) (name :: scope)
        (fun c hc => hlines.1.child hc) hlines.1.here Text.trim
      rw [pared] at hcell
      rw [paredAll_cons rfl, pared, cellsAmong, cellsAmong, hcell, hrest]
      split
      · exact congrArg (· :: _) (congrArg (Cell.mk _ _) hcontent)
      · rfl
    | text t => exact hrest
    | comment t => exact hrest
    | directive k t =>
      rw [paredAll]
      split
      · exact hrest
      · exact hrest

theorem rowsAmong_pared {scope : Scope} :
    rowsAmong opts scope (paredAll ns) = rowsAmong opts scope ns := by
  induction ns with
  | nil => rfl
  | cons n ns ih =>
    rw [List.forall_mem_cons] at h
    cases hn : n.isMute with
    | true =>
      have hnone : rowsOf opts scope n = [] := by
        cases n with
        | element name attrs cs => cases hn
        | _ => rfl
      rw [paredAll_cons_of_mute hn, rowsAmong, hnone, List.nil_append, ih h.2]
    | false => rw [paredAll_cons hn, rowsAmong, rowsAmong, h.1.here.rows, ih h.2]

end Siblings

/-! ## All nodes -/

section Element

variable {opts : Options} {name : Text} {attrs : Attributes} {cs : List Node}
  (h : ∀ c ∈ cs, c.Throughout (Alike opts)) (hlines : ∀ c ∈ cs, c.Throughout Unparted)
include h hlines

theorem rows_pared (scope : Scope) : rowsOf opts scope (.element name attrs (paredAll cs)) =
    rowsOf opts scope (.element name attrs cs) := by
  rw [rowsOf, rowsOf, isHeaderRow_pared, any_isCell_pared, cellsAmong_pared h hlines,
    rowsAmong_pared h]

theorem figure_pared (hparted : partsSeparator false false cs = false)
    (hrole : (Node.element name attrs cs).role = .figure) (scope : Scope) :
    block opts scope (.element name attrs (paredAll cs)) =
      block opts scope (.element name attrs cs) := by
  have hparts := Figure.rel_parts? scope name attrs cs
  have hrole' : (Node.element name attrs (paredAll cs)).role = .figure := hrole
  simp only [block, hrole, hrole']
  generalize hp : Figure.parts? ⟨[], scope, .element name attrs cs⟩ = parts,
    Figure.parts? ⟨[], scope, .element name attrs (paredAll cs)⟩ = parts' at hparts
  cases hparts with
  | none => exact fallback_pared h (name :: scope) hlines hparted id
  | some hmoved =>
    have hbefore := blocks_pared h (name :: scope) (fun _ hi => hmoved.isBefore_rank hi) hlines
    have hafter := blocks_pared h (name :: scope) (fun _ hi => hmoved.isAfter_rank hi) hlines
    dsimp only
    rw [hbefore, hafter, codeFigure_pared hlines opts hp hmoved]

theorem block_pared (hparted : partsSeparator false false cs = false)
    (hnested : (Node.element name attrs cs).Unnested) (scope : Scope) :
    block opts scope (.element name attrs (paredAll cs)) =
      block opts scope (.element name attrs cs) := by
  have hline := render_pared hlines hparted (name :: scope)
  have hrole' := role_pared (.element name attrs cs)
  rw [pared] at hrole'
  cases hrole : (Node.element name attrs cs).role with
  | table =>
    have hnone : ((⟨[], scope, .element name attrs cs⟩ : Place).findTag?
        "table".toList).isSome = false := nested_of_unnested (hnested hrole)
    rw [hrole] at hrole'
    simp only [block, hrole, hrole', nested_pared, hnone, rowsAmong_pared h, caption_pared hlines,
      Bool.false_eq_true, if_false]
  | list ordered =>
    rw [hrole] at hrole'
    have hnumber : firstNumber ordered (.element name attrs (paredAll cs)) =
        firstNumber ordered (.element name attrs cs) := rfl
    simp only [block, hrole, hrole', hnumber, items_pared h hlines]
  | quote =>
    rw [hrole] at hrole'
    have hblocks : blocks opts (name :: scope) (fun _ => true) [] (paredAll cs) =
        blocks opts (name :: scope) (fun _ => true) [] cs :=
      blocks_pared h (name :: scope) (fun _ _ => rfl) hlines
    simp only [block, hrole, hrole', any_isBlock_pared, hblocks, hline]
  | figure => exact figure_pared h hlines hparted hrole scope
  | container =>
    rw [hrole] at hrole'
    simp only [block, hrole, hrole']
    exact fallback_pared h (name :: scope) hlines hparted id
  | preformatted =>
    have hcode := fencedCode_pared opts scope (.element name attrs cs)
    rw [hrole] at hrole'
    rw [pared] at hcode
    simp only [block, hrole, hrole', hcode]
  | definitions =>
    rw [hrole] at hrole'
    simp only [block, hrole, hrole', definitions_pared hlines]
  | _ =>
    rw [hrole] at hrole'
    simp only [block, hrole, hrole', hline]

end Element

theorem alike {opts : Options} {n : Node} (hlines : n.Throughout Unparted)
    (hnested : n.Throughout Unnested) : n.Throughout (Alike opts) := by
  induction hlines with
  | @intro n here below ih =>
    have h : ∀ c ∈ n.children, c.Throughout (Alike opts) := fun c hc => ih c hc (hnested.child hc)
    refine .intro ⟨fun scope => ?_, fun scope depth due => ?_, fun scope => ?_⟩ h
    · cases n with
      | element name attrs cs => exact block_pared h below here hnested.here scope
      | _ => rfl
    · exact items_pared h below depth due
    · cases n with
      | element name attrs cs => exact rows_pared h below scope
      | _ => rfl

end Render

/-! ## Documents -/

namespace Node

/-- What holds of nodes and does not depend on the mute ones below holds after the deletion. -/
theorem Pares.throughout {B : Node → Prop} (hB : ∀ name attrs cs cs', Pares cs cs' →
      B (.element name attrs cs) → B (.element name attrs cs'))
    {ns ns' : List Node} (h : Pares ns ns') (hns : ∀ n ∈ ns, n.Throughout B) :
    ∀ n ∈ ns', n.Throughout B := by
  induction h with
  | nil => exact hns
  | drop _ _ ih => exact ih (List.forall_mem_cons.mp hns).2
  | keep n _ ih =>
    rw [List.forall_mem_cons] at hns ⊢
    exact ⟨hns.1, ih hns.2⟩
  | inside name attrs hcs _ ihcs ih =>
    rw [List.forall_mem_cons] at hns ⊢
    exact ⟨.intro (hB name attrs _ _ hcs hns.1.here) (ihcs fun c hc => hns.1.child hc), ih hns.2⟩

theorem tags_of_mute {n : Node} (h : n.isMute = true) : n.tags = [] := by
  cases n with
  | element name attrs cs => cases h
  | _ => rfl

theorem Pares.tagsAll_eq {ns ns' : List Node} (h : Pares ns ns') : tagsAll ns' = tagsAll ns := by
  induction h with
  | nil => rfl
  | drop hn _ ih => rw [ih, tagsAll, tags_of_mute hn, List.nil_append]
  | keep n _ ih => rw [tagsAll, tagsAll, ih]
  | inside name attrs _ _ ihcs ih => rw [tagsAll, tagsAll, tags, tags, ihcs, ih]

end Node

theorem convertTree_pared (opts : Options) {ns : List Node}
    (hparted : ∀ n ∈ ns, n.Throughout Unparted) (hnested : ∀ n ∈ ns, n.Throughout Unnested) :
    convertTree opts (paredAll ns) = convertTree opts ns := by
  have hblocks : Render.blocks opts [Place.documentTag] (fun _ => true) [] (paredAll ns) =
      Render.blocks opts [Place.documentTag] (fun _ => true) [] ns :=
    Render.blocks_pared (fun n hn => Render.alike (hparted n hn) (hnested n hn)) _
      (fun _ _ => rfl) hparted
  rw [convertTree, convertTree, Render.siblings, Render.siblings, hblocks]

/-- Taking any comments and directives out of a document changes nothing about it, its notices and
faults included, unless tables are nested or mute nodes keep a separator from its dropped link. -/
theorem mute_nodes_unseen (opts : Options) {ns ns' : List Node} (h : Pares ns ns')
    (hnested : ∀ n ∈ ns, n.Throughout Unnested) (hparted : ∀ n ∈ ns, n.Throughout Unparted) :
    convertTree opts ns' = convertTree opts ns := by
  have hnested' : ∀ n ∈ ns', n.Throughout Unnested :=
    h.throughout (fun _ _ _ _ hcs hB hrole => by
      rw [children, hcs.tagsAll_eq]
      exact hB hrole) hnested
  have hparted' : ∀ n ∈ ns', n.Throughout Unparted :=
    h.throughout (fun _ _ _ _ hcs hB =>
      Inline.partsSeparator_of_pares hcs (fun hp => by cases hp) hB) hparted
  calc convertTree opts ns'
      _ = convertTree opts (paredAll ns') := (convertTree_pared opts hparted' hnested').symm
      _ = convertTree opts (paredAll ns) := by rw [h.paredAll_eq]
      _ = convertTree opts ns := convertTree_pared opts hparted hnested

/-- A code figure and a list, with comments between everything. -/
def commented : List Node :=
  [.directive .doctype "html".toList,
    .element "figure".toList [("class".toList, some "code".toList)]
      [.comment "a".toList, .element "p".toList [] [.text "b".toList], .comment "c".toList,
        .element "pre".toList [] [.text "d".toList],
        .element "figcaption".toList [] [.text "e".toList]],
    .element "ul".toList []
      [.element "li".toList []
        [.comment "f".toList, .element "p".toList [] [.text "g".toList], .text "h".toList]]]

/-- The same document without most of them. -/
def uncommented : List Node :=
  [.element "figure".toList [("class".toList, some "code".toList)]
      [.element "p".toList [] [.text "b".toList], .comment "c".toList,
        .element "pre".toList [] [.text "d".toList],
        .element "figcaption".toList [] [.text "e".toList]],
    .element "ul".toList []
      [.element "li".toList []
        [.element "p".toList [] [.text "g".toList], .text "h".toList]]]

theorem commented_unseen : (∀ n ∈ commented, n.Throughout Unnested) ∧
    (∀ n ∈ commented, n.Throughout Unparted) ∧ Pares commented uncommented ∧
    convertTree Options.standard uncommented = convertTree Options.standard commented := by
  have hnested : ∀ n ∈ commented, n.Throughout Unnested := by decide
  have hparted : ∀ n ∈ commented, n.Throughout Unparted := by decide
  have hpares : Pares commented uncommented :=
    .drop rfl <| .inside _ _ (.drop rfl <| .keep _ <| .keep _ <| .keep _ <| .keep _ .nil) <|
      .inside _ _ (.inside _ _ (.drop rfl <| .keep _ <| .keep _ .nil) .nil) .nil
  exact ⟨hnested, hparted, hpares, mute_nodes_unseen _ hpares hnested hparted⟩

/-- A comment behind a dropped link brings the pipe after it back. -/
theorem parted_separator_shows :
    let link := Node.element "a".toList [("href".toList, some "javascript:x".toList)]
      [.text "l".toList]
    let document (between : List Node) : List Node :=
      [.element "p".toList [] ([link] ++ between ++ [.text "|".toList])]
    (∀ n ∈ document [.comment "c".toList], n.Throughout Unnested) ∧
      Pares (document [.comment "c".toList]) (document []) ∧
      (convertTree Options.standard (document [.comment "c".toList])).outcome = .ok "|".toList ∧
      (convertTree Options.standard (document [])).outcome = .ok [] :=
  ⟨by decide, .inside _ _ (.keep _ <| .drop rfl <| .keep _ .nil) .nil, rfl, rfl⟩

end Hypermark
