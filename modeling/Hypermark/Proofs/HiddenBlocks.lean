import Hypermark.Proofs.HiddenSearch
import Hypermark.Proofs.Unseen

/-!
# Blocks with hidden elements

Three kinds of blocks are read by searches: code, tables and code figures.  They come out the same
after a change that hides elements, if nothing that was found for them is hidden and the code in
them has the same text.

* `InSight`: what has to hold of a block.
* `Hides.unseen`: if it holds of all blocks, the change is not seen.
-/

namespace Hypermark

open Traced

/-! ## What blocks are read from -/

namespace Figure

def isLine (p : Place) : Bool := p.node.hasClass "line".toList

/-- The place whose text is the code of a `pre`. -/
def codeHolder (pre : Place) : Place := (pre.findTag? codeTag).getD pre

/-- The places whose texts are the code lines of a figure. -/
def codeSources (pre : Place) : List Place :=
  if (pre.findAll isLine).isEmpty then [codeHolder pre] else pre.findAll isLine

/-- The element has an attribute that can name a language. -/
def mayName (p : Place) : Bool :=
  (languageAttributes ++ ["class".toList]).any fun name => (p.node.attribute? name).isSome

theorem languageSources_eq (figure : Place) : languageSources figure =
    (figure.findTag? codeTag).toList ++ (figure.findTag? preTag).toList ++
      (figure.find? isMainCell).toList ++ (figure.find? isHighlight).toList ++ [figure] ++
      figure.findAll mayName := rfl

/-- The places that are found on the way to the language of a figure. -/
def languageLookups (figure : Place) : List Place :=
  (figure.findTag? codeTag).toList ++ (figure.findTag? preTag).toList ++
    (figure.find? isMainCell).toList ++ (figure.find? isHighlight).toList ++
    ((languageSources figure).find? fun p => (languageOf? p.node).isSome).toList

theorem of_parts?_eq_some {figure : Place} {parts : Parts} (h : parts? figure = some parts) :
    isCode figure.node = true ∧ codePre? figure = some parts.pre ∧
      parts.caption = caption? figure := by
  unfold parts? at h
  split at h
  · rename_i hcode
    split at h
    · rename_i pre hpre
      split at h
      · cases h
      · cases h
        exact ⟨hcode, hpre, rfl⟩
    · cases h
  · cases h

end Figure

namespace Place

/-- The places whose text is taken for the code of a block. -/
def textSources (p : Place) : List Place :=
  match p.node.role with
  | .preformatted => [Figure.codeHolder p]
  | .figure =>
    if Figure.isCode p.node then (Figure.codePre? p).toList.flatMap Figure.codeSources else []
  | _ => []

/-- The other places that a block is read from. -/
def lookups (opts : Options) (p : Place) : List Place :=
  match p.node.role with
  | .table =>
    (p.findTag? "table".toList).toList ++ p.findAll Render.isRow ++
      (p.findTag? "caption".toList).toList
  | .figure =>
    if Figure.isCode p.node then
      (Figure.codePre? p).toList.flatMap fun pre =>
        pre :: (Figure.caption? p).toList ++
          if opts.detectLanguage then Figure.languageLookups p else []
    else []
  | _ => []

/-- Nothing that the block is read from is hidden, and its code is the same after the change. -/
structure InSight (opts : Options) (T : Node → Node) (hidden : Scope → Bool) (p : Place) :
    Prop where
  lookups : ∀ q ∈ p.lookups opts, hidden q.scope = false
  texts : ∀ q ∈ p.textSources, hidden q.scope = false ∧ (q.change T).text = q.text

/-- What is in sight of a figure that has code. -/
theorem InSight.of_code {opts : Options} {T : Node → Node} {hidden : Scope → Bool}
    {figure pre : Place} (h : figure.InSight opts T hidden) (hrole : figure.node.role = .figure)
    (hcode : Figure.isCode figure.node = true) (hpre : Figure.codePre? figure = some pre) :
    hidden pre.scope = false ∧
      (∀ q ∈ Figure.codeSources pre, hidden q.scope = false ∧ (q.change T).text = q.text) ∧
      (∀ c ∈ Figure.caption? figure, hidden c.scope = false) ∧
      (opts.detectLanguage = true →
        ∀ q ∈ Figure.languageLookups figure, hidden q.scope = false) := by
  have hlookups := h.lookups
  have htexts := h.texts
  simp only [Place.lookups, hrole, hcode, if_true, hpre, Option.toList_some, List.flatMap_singleton,
    List.cons_append, List.forall_mem_cons, List.forall_mem_append, Option.mem_toList] at hlookups
  simp only [Place.textSources, hrole, hcode, if_true, hpre, Option.toList_some,
    List.flatMap_singleton] at htexts
  refine ⟨hlookups.1, htexts, hlookups.2.1, fun hdetect => ?_⟩
  rw [if_pos hdetect] at hlookups
  exact hlookups.2.2

end Place

namespace Hides

variable {T : Node → Node} {hidden : Scope → Bool} (hT : Hides T hidden)
include hT

/-! ## Code -/

theorem codeHolder_change {pre : Place} (hp : hidden pre.scope = false)
    (h : hidden (Figure.codeHolder pre).scope = false) :
    Figure.codeHolder (pre.change T) = (Figure.codeHolder pre).change T := by
  have hagain := hT.findTag?_change hp Figure.codeTag
  unfold Figure.codeHolder at h ⊢
  cases hc : pre.findTag? Figure.codeTag with
  | none =>
    rw [hc] at hagain
    rw [hagain nofun]
    rfl
  | some c =>
    rw [hc] at h hagain
    rw [hagain fun q hq => Option.some.inj hq ▸ h]
    rfl

theorem codeLines_change {pre : Place} (hp : hidden pre.scope = false)
    (h : ∀ q ∈ Figure.codeSources pre, hidden q.scope = false ∧ (q.change T).text = q.text) :
    Figure.codeLines (pre.change T) = Figure.codeLines pre := by
  have hline : ∀ p : Place, Figure.isLine (p.change T) = Figure.isLine p := fun p =>
    hT.hasClass_eq p.node _
  have hcodeLines : ∀ pre : Place, Figure.codeLines pre = Figure.trimLines
      (if (pre.findAll Figure.isLine).isEmpty then
        Text.lines (Text.unifyBreaks (Figure.codeHolder pre).text)
      else (pre.findAll Figure.isLine).map Figure.lineText) := fun _ => rfl
  rw [hcodeLines, hcodeLines]
  unfold Figure.codeSources at h
  by_cases hlines : (pre.findAll Figure.isLine).isEmpty = true
  · have hnone : ((pre.change T).findAll Figure.isLine).isEmpty = true := by
      rw [hT.findAll_change hp hline, List.isEmpty_iff.mp hlines]
      rfl
    rw [if_pos hlines, List.forall_mem_singleton] at h
    rw [if_pos hlines, if_pos hnone, hT.codeHolder_change hp h.1, h.2]
  · rw [if_neg hlines] at h
    rw [hT.findAll_change_of_shown hp hline fun q hq => (h q hq).1, List.isEmpty_map, if_neg hlines,
      if_neg hlines, List.map_map]
    refine congrArg Figure.trimLines (List.map_congr_left fun q hq => ?_)
    rw [Function.comp_apply, Figure.lineText, (h q hq).2, Figure.lineText]

theorem fencedCode_change (opts : Options) {pre : Place} (hp : hidden pre.scope = false)
    (hrole : pre.node.role = .preformatted) (h : pre.InSight opts T hidden) :
    Render.fencedCode opts (pre.change T) = Render.fencedCode opts pre := by
  have htexts := h.texts
  simp only [Place.textSources, hrole, List.forall_mem_singleton] at htexts
  have hagain : (pre.change T).findTag? Figure.codeTag =
      (pre.findTag? Figure.codeTag).map (Place.change T) := by
    refine hT.findTag?_change hp _ fun c hc => ?_
    rw [Option.mem_def] at hc
    rw [Figure.codeHolder, hc] at htexts
    exact htexts.1
  have htext : (((pre.change T).findTag? Figure.codeTag).getD (pre.change T)).text =
      ((pre.findTag? Figure.codeTag).getD pre).text :=
    (congrArg Place.text (hT.codeHolder_change hp htexts.1)).trans htexts.2
  have hplaces : (((pre.change T).findTag? Figure.codeTag).toList ++ [pre.change T]).map (·.node) =
      (((pre.findTag? Figure.codeTag).toList ++ [pre]).map (·.node)).map T := by
    rw [hagain]
    cases pre.findTag? Figure.codeTag <;> rfl
  simp only [Render.fencedCode, Place.code, htext, hplaces, hT.detect_map]

/-! ## Figures -/

end Hides

/-- The parts of a figure, changed in their turn. -/
def Figure.Parts.change (T : Node → Node) (parts : Figure.Parts) : Figure.Parts :=
  ⟨parts.pre.change T, parts.lines, parts.caption.map (Place.change T)⟩

namespace Figure.Parts

variable {T : Node → Node}

theorem isCaption_change (parts : Parts) (i : Nat) :
    (parts.change T).isCaption i = parts.isCaption i := by
  obtain ⟨pre, lines, caption⟩ := parts
  cases caption <;> rfl

theorem holder?_change (parts : Parts) : (parts.change T).holder? = parts.holder? := by
  unfold holder?
  simp only [isCaption_change]
  rfl

theorem isBefore_change (parts : Parts) : (parts.change T).isBefore = parts.isBefore := by
  funext i
  rw [isBefore, isBefore, isCaption_change, holder?_change]

theorem isAfter_change (parts : Parts) : (parts.change T).isAfter = parts.isAfter := by
  funext i
  rw [isAfter, isAfter, isCaption_change, holder?_change]

end Figure.Parts

namespace Hides

variable {T : Node → Node} {hidden : Scope → Bool} (hT : Hides T hidden)
include hT

theorem parts?_change {figure : Place} (hp : hidden figure.scope = false)
    (h : Figure.isCode figure.node = true → ∀ pre ∈ Figure.codePre? figure,
      hidden pre.scope = false ∧
        (∀ q ∈ Figure.codeSources pre, hidden q.scope = false ∧ (q.change T).text = q.text) ∧
        ∀ c ∈ Figure.caption? figure, hidden c.scope = false) :
    Figure.parts? (figure.change T) = (Figure.parts? figure).map (Figure.Parts.change T) := by
  have hcode : Figure.isCode (figure.change T).node = Figure.isCode figure.node :=
    hT.hasClass_eq figure.node _
  rw [Figure.parts?, Figure.parts?, hcode]
  by_cases hc : Figure.isCode figure.node = true
  · rw [if_pos hc, if_pos hc, hT.codePre?_change hp fun pre hfound => (h hc pre hfound).1]
    cases hfound : Figure.codePre? figure with
    | none => rfl
    | some pre =>
      obtain ⟨hshown, htexts, hcaption⟩ := h hc pre hfound
      have hagain : Figure.caption? (figure.change T) =
          (Figure.caption? figure).map (Place.change T) := hT.findTag?_change hp _ hcaption
      simp only [Option.map_some, hT.codeLines_change hshown htexts, hagain]
      split
      · rfl
      · rfl
  · rw [if_neg hc, if_neg hc]
    rfl

theorem detectLanguage_change {figure : Place} (hp : hidden figure.scope = false)
    (h : ∀ q ∈ Figure.languageLookups figure, hidden q.scope = false) :
    Figure.detectLanguage (figure.change T) = Figure.detectLanguage figure := by
  simp only [Figure.languageLookups, List.forall_mem_append, Option.mem_toList] at h
  obtain ⟨⟨⟨⟨hcode, hpre⟩, hmain⟩, hhighlight⟩, hnaming⟩ := h
  have hnamed : ∀ p : Place, Figure.mayName (p.change T) = Figure.mayName p := by
    intro p
    rw [Bool.eq_iff_iff, Figure.mayName, Figure.mayName, List.any_eq_true, List.any_eq_true]
    refine exists_congr fun name => and_congr_right fun hname => ?_
    have hlayout : ∀ name ∈ Figure.languageAttributes ++ ["class".toList],
        name ∈ layoutAttributes := by decide
    rw [Place.change, hT.layout p.node name (hlayout name hname)]
  have hsources : Figure.languageSources (figure.change T) =
      ((Figure.languageSources figure).filter fun q => !hidden q.scope).map (Place.change T) := by
    simp only [Figure.languageSources_eq, List.filter_append, List.map_append,
      (hT.findTag?_change hp Figure.codeTag).toList hcode,
      (hT.findTag?_change hp Figure.preTag).toList hpre,
      (hT.find?_change hp hT.isMainCell_change).toList hmain,
      (hT.find?_change hp hT.isHighlight_change).toList hhighlight,
      hT.findAll_change hp hnamed, List.filter_singleton, hp]
    rfl
  have hsame : ((Figure.languageSources (figure.change T)).findSome? fun p =>
      Figure.languageOf? p.node) =
        (Figure.languageSources figure).findSome? fun p => Figure.languageOf? p.node := by
    have hof : (fun p : Place => Figure.languageOf? p.node) ∘ Place.change T =
        fun p => Figure.languageOf? p.node := funext fun p => hT.languageOf?_eq p.node
    rw [hsources, List.findSome?_map, hof]
    exact findSome?_filter_of fun p hfound => by rw [hnaming p hfound]; rfl
  rw [Figure.detectLanguage, hsame, Figure.detectLanguage]

end Hides

/-! ## Documents -/

/-- What `I` says of a node that is not hidden is true of everything below it that is not hidden. -/
structure Inherited (hidden : Scope → Bool) (I : Scope → Node → Prop) : Prop where
  shown : ∀ scope n, I scope n → hidden scope = false
  child : ∀ scope name attrs cs, I scope (.element name attrs cs) →
    Role.ofTag (Text.lower name) ≠ .ignored → ∀ c ∈ cs, I (name :: scope) c
  found : ∀ p q : Place, I p.scope p.node → q ∈ p.descendants → hidden q.scope = false →
    I q.scope q.node

theorem Inherited.children {hidden : Scope → Bool} {I : Scope → Node → Prop}
    (hI : Inherited hidden I) {p : Place} (hrole : p.node.role ≠ .ignored)
    (h : I p.scope p.node) : ∀ c ∈ p.node.children, I p.innerScope c := by
  obtain ⟨path, scope, n⟩ := p
  cases n with
  | element name attrs cs => exact hI.child scope name attrs cs h hrole
  | text t => exact nofun
  | comment t => exact nofun
  | directive k t => exact nofun

namespace Hides

variable {T : Node → Node} {hidden : Scope → Bool} (hT : Hides T hidden) {opts : Options}
  {I : Scope → Node → Prop} (hI : Inherited hidden I)
  (hline : ∀ scope ns, (∀ n ∈ ns, I scope n) →
    (Inline.render scope (ns.map T)).outcome = (Inline.render scope ns).outcome)
include hT hI

include hline in
/-- An element that is found by its tag and not hidden has the same line. -/
theorem found_line {p c : Place} {tag : Text} (hne : tag ≠ []) (hrole : Role.ofTag tag ≠ .ignored)
    (h : I p.scope p.node) (hfound : p.findTag? tag = some c) (hc : hidden c.scope = false) :
    (Inline.render (c.change T).innerScope (c.change T).node.children).outcome =
      (Inline.render c.innerScope c.node.children).outcome := by
  have htag : (c.tag == tag) = true := List.find?_some (p := fun q : Place => q.tag == tag) hfound
  have hshown := Node.not_ignored_of_tag (beq_iff_eq.mp htag) hne hrole
  obtain ⟨hscope, hchildren⟩ := hT.children_change hshown
  rw [hscope, hchildren]
  exact hline _ _ (hI.children hshown (hI.found p c h (List.mem_of_find?_eq_some hfound) hc))

section Table

variable {table : Place} (hrole : table.node.role = .table) (h : I table.scope table.node)
  (hsight : table.InSight opts T hidden)
include hrole h hsight

theorem rowPlaces_change : Render.rowPlaces (table.change T) =
    (Render.rowPlaces table).map (Row.mapCells (Place.change T)) := by
  have hlookups := hsight.lookups
  simp only [Place.lookups, hrole, List.forall_mem_append] at hlookups
  rw [Render.rowPlaces_eq, Render.rowPlaces_eq,
    hT.findAll_change_of_shown (hI.shown _ _ h) hT.isRow_change hlookups.1.2, List.map_map,
    List.map_map]
  exact List.map_congr_left fun row hrow => hT.rowAt_change (List.mem_filter.mp hrow).2

omit hT in
theorem cells_of_rowPlaces {row : Row Place} (hrow : row ∈ Render.rowPlaces table) {c : Place}
    (hc : c ∈ row.cells) : I c.scope c.node := by
  have hlookups := hsight.lookups
  simp only [Place.lookups, hrole, List.forall_mem_append] at hlookups
  obtain ⟨place, hplace, hscope, hmem⟩ := Render.exists_row_of_mem_rowPlaces hrow hc
  obtain ⟨hbelow, hisRow⟩ := List.mem_filter.mp hplace
  rw [hscope]
  exact hI.children (Render.not_ignored_of_isRow hisRow)
    (hI.found table place h hbelow (hlookups.1.2 place hplace)) c.node hmem

include hline in
theorem caption_change :
    (Render.caption (table.change T)).outcome = (Render.caption table).outcome := by
  have hlookups := hsight.lookups
  simp only [Place.lookups, hrole, List.forall_mem_append, Option.mem_toList] at hlookups
  unfold Render.caption
  rw [hT.findTag?_change (hI.shown _ _ h) _ hlookups.2]
  cases hc : table.findTag? "caption".toList with
  | none => rfl
  | some c =>
    exact bind_outcome_congr
      (hT.found_line hI hline (by decide) (by decide) h hc (hlookups.2 c hc)) fun _ _ => rfl

end Table

include hline in
theorem sameParts {figure : Place} (hrole : figure.node.role = .figure)
    (h : I figure.scope figure.node) (hsight : figure.InSight opts T hidden) :
    Render.SameParts opts figure (figure.change T) (Figure.parts? figure)
      (Figure.parts? (figure.change T)) := by
  have hp := hI.shown _ _ h
  rw [hT.parts?_change hp fun hcode pre hpre =>
    let ⟨hshown, htexts, hcaption, _⟩ := hsight.of_code hrole hcode hpre
    ⟨hshown, htexts, hcaption⟩]
  cases hparts : Figure.parts? figure with
  | none => trivial
  | some parts =>
    obtain ⟨hcode, hpre, hcaption⟩ := Figure.of_parts?_eq_some hparts
    obtain ⟨-, -, hcaptions, hlanguages⟩ := hsight.of_code hrole hcode hpre
    refine ⟨parts.isBefore_change, parts.isAfter_change, fun _ _ _ _ hbefore hafter => ?_⟩
    refine bind_outcome_congr ?_ fun caption _ => bind_outcome_congr ?_ fun language _ => ?_
    · unfold Render.figureCaption
      cases hc : parts.caption with
      | none => rw [Figure.Parts.change, hc]; rfl
      | some c =>
        rw [hcaption] at hc
        rw [Figure.Parts.change, hcaption, hc]
        exact bind_outcome_congr
          (hT.found_line hI hline (by decide) (by decide) h hc (hcaptions c hc)) fun _ _ => rfl
    · by_cases hdetect : opts.detectLanguage = true
      · rw [if_pos hdetect, if_pos hdetect, hT.detectLanguage_change hp (hlanguages hdetect)]
      · rw [if_neg hdetect, if_neg hdetect]
    · exact bind_outcome_congr rfl fun _ _ => bind_outcome_congr rfl fun _ _ =>
        bind_outcome_congr hbefore fun _ _ => bind_outcome_congr hafter fun _ _ => rfl

include hline in
/-- A change that hides elements is not seen if all blocks are read from what is in sight. -/
theorem unseen {P : Place → Prop}
    (hsight : ∀ p, I p.scope p.node → P p → p.InSight opts T hidden)
    (hmarkup : ∀ p, P p → p.isRawTable = true → (T p.node).outerMarkup = p.node.outerMarkup) :
    Render.Unseen opts T I P where
  toKeepsShape := hT.toKeepsShape
  inner := hI.child
  line := hline
  code p h hP hrole := congrArg Traced.outcome
    (hT.fencedCode_change opts (hI.shown _ _ h) hrole (hsight p h hP))
  nested p h hP hrole := by
    have hlookups := (hsight p h hP).lookups
    simp only [Place.lookups, hrole, List.forall_mem_append, Option.mem_toList] at hlookups
    rw [hT.findTag?_change (hI.shown _ _ h) _ hlookups.1.1, Option.isSome_map]
  markup := hmarkup
  rows p h hP hrole _ := ⟨hT.rowPlaces_change hI hrole h (hsight p h hP), fun row hrow c hc =>
    cells_of_rowPlaces hI hrole h (hsight p h hP) hrow hc⟩
  caption p h hP hrole _ := hT.caption_change hI hline hrole h (hsight p h hP)
  figure p h hP hrole := hT.sameParts hI hline hrole h (hsight p h hP)

end Hides

end Hypermark
