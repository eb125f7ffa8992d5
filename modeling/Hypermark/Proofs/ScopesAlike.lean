import Hypermark.Render

/-!
# Scopes that read alike

What encloses a node counts in two ways only: the nearest element that owns its texts has them, and a
row below a `thead` heads its table.  Two scopes that agree on both are alike, and nothing that is
rendered tells them apart.

* `Place.descendants_within`: a search finds the same places, each within what is around.
* `Render.block_alike`, `Render.blocks_alike`: blocks are rendered the same in alike scopes.
-/

namespace Hypermark

/-- Two scopes with one owner of texts, both in a `thead` or neither. -/
structure Scope.Alike (scope scope' : Scope) : Prop where
  owner : Scope.owner scope = Scope.owner scope'
  header : (scope.any fun name => Text.lower name == "thead".toList) =
    scope'.any fun name => Text.lower name == "thead".toList

namespace Scope.Alike

variable {scope scope' : Scope}

theorem cons (h : Scope.Alike scope scope') (name : Text) :
    Scope.Alike (name :: scope) (name :: scope') where
  owner := by rw [Scope.owner, Scope.owner, List.find?_cons, List.find?_cons, ← Scope.owner,
    ← Scope.owner, h.owner]
  header := by rw [List.any_cons, List.any_cons, h.header]

theorem append (h : Scope.Alike scope scope') (inner : Scope) :
    Scope.Alike (inner ++ scope) (inner ++ scope') := by
  induction inner with
  | nil => exact h
  | cons name inner ih => exact ih.cons name

/-- An element that owns no texts and is no `thead` is not noticed. -/
theorem of_transparent (scope : Scope) {name : Text} (howns : Node.ownsText name = false)
    (hhead : Text.lower name ≠ "thead".toList) : Scope.Alike (name :: scope) scope where
  owner := List.find?_cons_of_neg (by rw [howns]; exact Bool.false_ne_true)
  header := by rw [List.any_cons, beq_eq_false_iff_ne.mpr hhead, Bool.false_or]

end Scope.Alike

theorem Node.textIn_alike {scope scope' : Scope} (h : Scope.Alike scope scope') (n : Node) :
    n.textIn scope = n.textIn scope' := by
  cases n with
  | element name attrs cs => rw [textIn, textIn, h.owner]
  | text t => rfl
  | comment t => rfl
  | directive k t => rfl

/-! ## Places -/

namespace Place

/-- The place with more around it. -/
def within (outer : Scope) (p : Place) : Place := ⟨p.path, p.scope ++ outer, p.node⟩

variable {outer outer' : Scope}

theorem text_within (h : Scope.Alike outer outer') (p : Place) :
    (p.within outer).text = (p.within outer').text :=
  Node.textIn_alike (h.append p.scope) p.node

theorem innerScope_within (outer : Scope) (p : Place) :
    (p.within outer).innerScope = p.innerScope ++ outer := by
  obtain ⟨path, scope, n⟩ := p
  cases n <;> rfl

mutual

theorem elementsBelow_within (outer : Scope) (path : List Nat) (scope : Scope) :
    (n : Node) → elementsBelow path (scope ++ outer) n =
      (elementsBelow path scope n).map (within outer)
  | .element name attrs cs => by
    rw [elementsBelow, elementsBelow, ← List.cons_append,
      elementsAmong_within outer path (name :: scope) 0 cs]
  | .text _ => rfl
  | .comment _ => rfl
  | .directive _ _ => rfl

theorem elementsAmong_within (outer : Scope) (path : List Nat) (scope : Scope) (i : Nat) :
    (ns : List Node) → elementsAmong path (scope ++ outer) i ns =
      (elementsAmong path scope i ns).map (within outer)
  | [] => rfl
  | n :: ns => by
    rw [elementsAmong, elementsAmong, elementsBelow_within outer (path ++ [i]) scope n,
      elementsAmong_within outer path scope (i + 1) ns, List.map_append, List.map_append]
    split
    · rfl
    · rfl

end

theorem descendants_within (outer : Scope) (p : Place) :
    (p.within outer).descendants = p.descendants.map (within outer) :=
  elementsBelow_within outer p.path p.scope p.node

section Search

variable (outer : Scope) {q : Place → Bool} (hq : ∀ p : Place, q (p.within outer) = q p)
include hq

theorem find?_within (p : Place) : (p.within outer).find? q = (p.find? q).map (within outer) := by
  have hcomp : q ∘ within outer = q := funext hq
  rw [find?, find?, descendants_within, List.find?_map, hcomp]

theorem findAll_within (p : Place) :
    (p.within outer).findAll q = (p.findAll q).map (within outer) := by
  have hcomp : q ∘ within outer = q := funext hq
  rw [findAll, findAll, descendants_within, List.filter_map, hcomp]

end Search

theorem findTag?_within (outer : Scope) (p : Place) (tag : Text) :
    (p.within outer).findTag? tag = (p.findTag? tag).map (within outer) :=
  find?_within outer (fun _ => rfl) p

end Place

/-! ## Figures -/

namespace Figure

open Place

variable {outer outer' : Scope}

theorem preInside?_within (outer : Scope) (ps : List Place) :
    preInside? (ps.map (within outer)) = (preInside? ps).map (within outer) := by
  rw [preInside?, preInside?, List.findSome?_map]
  induction ps with
  | nil => rfl
  | cons p ps ih =>
    rw [List.findSome?_cons, List.findSome?_cons, Function.comp_apply, findTag?_within, ih]
    cases p.findTag? preTag with
    | none => rfl
    | some pre => rfl

theorem codePre?_within (outer : Scope) (figure : Place) :
    codePre? (figure.within outer) = (codePre? figure).map (within outer) := by
  have hfilter : ∀ {q : Place → Bool}, (∀ p : Place, q (p.within outer) = q p) →
      ∀ ps : List Place, (ps.map (within outer)).filter q = (ps.filter q).map (within outer) := by
    intro q hq ps
    have hcomp : q ∘ within outer = q := funext hq
    rw [List.filter_map, hcomp]
  have hor : ∀ a b : Option Place,
      (a.map (within outer)).or (b.map (within outer)) = (a.or b).map (within outer) := by
    intro a b
    cases a with
    | none => rfl
    | some a => rfl
  rw [codePre?, codePre?, findAll_within outer fun _ => rfl, findAll_within outer fun _ => rfl,
    findTag?_within, hfilter fun _ => rfl, hfilter fun _ => rfl, preInside?_within, preInside?_within,
    preInside?_within, hor, hor, hor]

theorem codeLines_within (h : Scope.Alike outer outer') (pre : Place) :
    codeLines (pre.within outer) = codeLines (pre.within outer') := by
  have hcode : (((pre.within outer).findTag? codeTag).getD (pre.within outer)).text =
      (((pre.within outer').findTag? codeTag).getD (pre.within outer')).text := by
    rw [findTag?_within, findTag?_within]
    cases pre.findTag? codeTag with
    | none => exact text_within h pre
    | some code => exact text_within h code
  have hlines : ∀ ps : List Place, (ps.map (within outer)).map lineText =
      (ps.map (within outer')).map lineText := by
    intro ps
    rw [List.map_map, List.map_map]
    refine List.map_congr_left fun p _ => ?_
    rw [Function.comp_apply, Function.comp_apply, lineText, lineText, text_within h p]
  simp only [codeLines]
  rw [hcode, findAll_within outer fun _ => rfl, findAll_within outer' fun _ => rfl, hlines,
    List.isEmpty_map, List.isEmpty_map]

theorem detectLanguage_within (outer : Scope) (figure : Place) :
    detectLanguage (figure.within outer) = detectLanguage figure := by
  have hsources : languageSources (figure.within outer) =
      (languageSources figure).map (within outer) := by
    have hlist : ∀ found : Option Place,
        (found.map (within outer)).toList = found.toList.map (within outer) := by
      intro found
      cases found with
      | none => rfl
      | some p => rfl
    simp only [languageSources, List.map_append, List.map_singleton, findTag?_within,
      find?_within outer (q := isMainCell) fun _ => rfl,
      find?_within outer (q := isHighlight) fun _ => rfl, hlist]
    rw [findAll_within outer fun _ => rfl]
  rw [detectLanguage, detectLanguage, hsources, List.findSome?_map]
  rfl

/-- The parts of a figure with more around it. -/
def Parts.within (outer : Scope) (parts : Parts) : Parts :=
  ⟨parts.pre.within outer, parts.lines, parts.caption.map (Place.within outer)⟩

theorem Parts.isCaption_within (outer : Scope) (parts : Parts) :
    (parts.within outer).isCaption = parts.isCaption := by
  obtain ⟨pre, lines, caption⟩ := parts
  cases caption with
  | none => rfl
  | some c => rfl

theorem Parts.isBefore_within (outer : Scope) (parts : Parts) :
    (parts.within outer).isBefore = parts.isBefore := by
  funext i
  rw [isBefore, isBefore, holder?, holder?, isCaption_within]
  rfl

theorem Parts.isAfter_within (outer : Scope) (parts : Parts) :
    (parts.within outer).isAfter = parts.isAfter := by
  funext i
  rw [isAfter, isAfter, holder?, holder?, isCaption_within]
  rfl

/-- A figure is taken apart alike in alike scopes. -/
theorem parts?_within (h : Scope.Alike outer outer') (figure : Place) :
    ∃ parts : Option Parts, parts? (figure.within outer) = parts.map (Parts.within outer) ∧
      parts? (figure.within outer') = parts.map (Parts.within outer') := by
  have hcode : ∀ o : Scope, isCode (figure.within o).node = isCode figure.node := fun _ => rfl
  rw [parts?, parts?, hcode, hcode, codePre?_within, codePre?_within, caption?, caption?,
    findTag?_within, findTag?_within]
  cases isCode figure.node with
  | false => exact ⟨none, rfl, rfl⟩
  | true =>
    cases codePre? figure with
    | none => exact ⟨none, rfl, rfl⟩
    | some pre =>
      simp only [if_true, Option.map_some, codeLines_within h pre]
      split
      · exact ⟨none, rfl, rfl⟩
      · exact ⟨some ⟨pre, codeLines (pre.within outer'), figure.findTag? "figcaption".toList⟩,
          rfl, rfl⟩

end Figure

/-! ## Lines -/

namespace Inline

variable {scope scope' : Scope}

mutual

theorem addNode_alike {scope scope' : Scope} (h : Scope.Alike scope scope') :
    (n : Node) → ∀ b, addNode scope n b = addNode scope' n b
  | .element name attrs cs => by
    intro b
    have hbelow := addNodes_alike (h.cons name) cs
    rw [addNode, addNode, Node.textIn_alike h]
    simp only [hbelow]
  | .text t => fun _ => rfl
  | .comment t => fun _ => rfl
  | .directive k t => fun _ => rfl

theorem addNodes_alike {scope scope' : Scope} (h : Scope.Alike scope scope') :
    (ns : List Node) → ∀ dropped b, addNodes scope dropped ns b = addNodes scope' dropped ns b
  | [] => fun _ _ => rfl
  | n :: ns => by
    intro dropped b
    rw [addNodes, addNodes, addNode_alike h n]
    simp only [addNodes_alike h ns]

end

theorem collapse_alike (h : Scope.Alike scope scope') (ns : List Node) :
    collapse scope ns = collapse scope' ns := by
  rw [collapse, collapse, buffer, buffer, addNodes_alike h]

theorem render_alike (h : Scope.Alike scope scope') (ns : List Node) :
    render scope ns = render scope' ns := by
  rw [render, render, collapse_alike h]

end Inline

/-! ## Blocks -/

namespace Render

open Place

variable {scope scope' : Scope}

theorem run_alike (h : Scope.Alike scope scope') (ns : List Node) : run scope ns = run scope' ns := by
  rw [run, run, Inline.render_alike h]

theorem runSegment_alike (h : Scope.Alike scope scope') (ns : List Node) :
    runSegment scope ns = runSegment scope' ns := by
  rw [runSegment, runSegment, Inline.render_alike h]

theorem definitions_alike (h : Scope.Alike scope scope') (started : Bool) (ns : List Node) :
    definitions scope started ns = definitions scope' started ns := by
  induction ns generalizing started with
  | nil => rfl
  | cons n ns ih =>
    cases n with
    | element name attrs cs =>
      rw [definitions, definitions, Inline.render_alike (h.cons name), ih, ih]
    | text t => exact ih started
    | comment t => exact ih started
    | directive k t => exact ih started

theorem isHeaderRow_alike (h : Scope.Alike scope scope') (cs : List Node) :
    isHeaderRow scope cs = isHeaderRow scope' cs := by
  rw [isHeaderRow, isHeaderRow, h.header]

section Places

variable {outer outer' : Scope}

theorem fencedCode_within (opts : Options) (h : Scope.Alike outer outer') (pre : Place) :
    fencedCode opts (pre.within outer) = fencedCode opts (pre.within outer') := by
  simp only [fencedCode, Place.code, findTag?_within]
  cases pre.findTag? Figure.codeTag with
  | none =>
    simp only [Option.map_none, Option.getD_none, text_within h]
    rfl
  | some code =>
    simp only [Option.map_some, Option.getD_some, text_within h]
    rfl

theorem caption_within (h : Scope.Alike outer outer') (table : Place) :
    caption (table.within outer) = caption (table.within outer') := by
  simp only [caption, findTag?_within]
  cases table.findTag? "caption".toList with
  | none => rfl
  | some c =>
    simp only [Option.map_some, innerScope_within]
    rw [Inline.render_alike (h.append c.innerScope)]
    rfl

theorem codeFigure_within (opts : Options) (h : Scope.Alike outer outer') (figure : Place)
    (parts : Figure.Parts) (before after : Traced (List Text)) :
    codeFigure opts (figure.within outer) (parts.within outer) before after =
      codeFigure opts (figure.within outer') (parts.within outer') before after := by
  have hcaption : figureCaption (parts.within outer) = figureCaption (parts.within outer') := by
    simp only [figureCaption, Figure.Parts.within]
    cases parts.caption with
    | none => rfl
    | some c =>
      simp only [Option.map_some, innerScope_within]
      rw [Inline.render_alike (h.append c.innerScope)]
      rfl
  rw [codeFigure, codeFigure, hcaption, Figure.detectLanguage_within, Figure.detectLanguage_within]
  rfl

end Places

/-! ## The recursion -/

mutual

theorem block_alike {scope scope' : Scope} (opts : Options) (h : Scope.Alike scope scope') :
    (n : Node) → block opts scope n = block opts scope' n
  | .element name attrs cs => by
    have hinner := h.cons name
    have hblocks := blocks_alike opts hinner cs
    have hplace : ∀ o : Scope, (⟨[], o, .element name attrs cs⟩ : Place) =
      (⟨[], [], .element name attrs cs⟩ : Place).within o := fun _ => rfl
    cases hrole : (Node.element name attrs cs).role with
    | table =>
      simp only [block, hrole]
      rw [hplace scope, hplace scope', caption_within h, findTag?_within, findTag?_within,
        Option.isSome_map, Option.isSome_map, rowsAmong_alike opts hinner cs]
    | preformatted =>
      simp only [block, hrole]
      rw [hplace scope, hplace scope', fencedCode_within opts h]
    | list ordered =>
      simp only [block, hrole, items_alike opts hinner cs]
    | definitions =>
      simp only [block, hrole, definitions_alike hinner]
    | figure =>
      obtain ⟨parts, hparts, hparts'⟩ :=
        Figure.parts?_within h ⟨[], [], .element name attrs cs⟩
      simp only [block, hrole, hblocks, Inline.render_alike hinner]
      rw [hplace scope, hplace scope', hparts, hparts']
      cases parts with
      | none => rfl
      | some parts =>
        simp only [Option.map_some, Figure.Parts.isBefore_within, Figure.Parts.isAfter_within]
        exact codeFigure_within opts h _ parts _ _
    | _ => simp only [block, hrole, hblocks, Inline.render_alike hinner]
  | .text t => rfl
  | .comment t => rfl
  | .directive k t => rfl

theorem blocks_alike {scope scope' : Scope} (opts : Options) (h : Scope.Alike scope scope') :
    (ns : List Node) → ∀ keep pending,
      blocks opts scope keep pending ns = blocks opts scope' keep pending ns
  | [] => by
    intro keep pending
    rw [blocks, blocks, run_alike h]
  | n :: ns => by
    intro keep pending
    rw [blocks, blocks, run_alike h, block_alike opts h n]
    simp only [blocks_alike opts h ns]

theorem items_alike {scope scope' : Scope} (opts : Options) (h : Scope.Alike scope scope') :
    (ns : List Node) → ∀ depth due, items opts scope depth due ns = items opts scope' depth due ns
  | [] => fun _ _ => by rw [items, items]
  | .element name attrs cs :: ns => by
    intro depth due
    rw [items, items, segments_alike opts (h.cons name) cs]
    simp only [items_alike opts h ns]
  | .text t :: ns => items_alike opts h ns
  | .comment t :: ns => items_alike opts h ns
  | .directive k t :: ns => items_alike opts h ns

theorem segments_alike {scope scope' : Scope} (opts : Options) (h : Scope.Alike scope scope') :
    (ns : List Node) → ∀ depth pending,
      segments opts scope depth pending ns = segments opts scope' depth pending ns
  | [] => by
    intro depth pending
    rw [segments, segments, runSegment_alike h]
  | .element name attrs cs :: ns => by
    intro depth pending
    rw [segments, segments, runSegment_alike h, block_alike opts h (.element name attrs cs)]
    simp only [segments_alike opts h ns, items_alike opts (h.cons name) cs]
  | .text t :: ns => fun _ _ => segments_alike opts h ns _ _
  | .comment t :: ns => fun _ _ => segments_alike opts h ns _ _
  | .directive k t :: ns => fun _ _ => segments_alike opts h ns _ _

theorem rowsOf_alike {scope scope' : Scope} (opts : Options) (h : Scope.Alike scope scope') :
    (n : Node) → rowsOf opts scope n = rowsOf opts scope' n
  | .element name attrs cs => by
    rw [rowsOf, rowsOf, isHeaderRow_alike h, cellsAmong_alike opts (h.cons name) cs,
      rowsAmong_alike opts (h.cons name) cs]
  | .text t => rfl
  | .comment t => rfl
  | .directive k t => rfl

theorem rowsAmong_alike {scope scope' : Scope} (opts : Options) (h : Scope.Alike scope scope') :
    (ns : List Node) → rowsAmong opts scope ns = rowsAmong opts scope' ns
  | [] => by rw [rowsAmong, rowsAmong]
  | n :: ns => by rw [rowsAmong, rowsAmong, rowsOf_alike opts h n, rowsAmong_alike opts h ns]

theorem cellsAmong_alike {scope scope' : Scope} (opts : Options) (h : Scope.Alike scope scope') :
    (ns : List Node) → cellsAmong opts scope ns = cellsAmong opts scope' ns
  | [] => by rw [cellsAmong, cellsAmong]
  | .element name attrs cs :: ns => by
    rw [cellsAmong, cellsAmong, blocks_alike opts (h.cons name) cs,
      Inline.render_alike (h.cons name), cellsAmong_alike opts h ns]
  | .text t :: ns => cellsAmong_alike opts h ns
  | .comment t :: ns => cellsAmong_alike opts h ns
  | .directive k t :: ns => cellsAmong_alike opts h ns

end

theorem siblings_alike (opts : Options) (h : Scope.Alike scope scope') (ns : List Node) :
    siblings opts scope ns = siblings opts scope' ns := by
  rw [siblings, siblings, blocks_alike opts h]

end Render

end Hypermark
