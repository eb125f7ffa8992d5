import Hypermark.Proofs.InlineAngles
import Hypermark.Proofs.RawTable
import Hypermark.Proofs.TableInk
import Hypermark.Proofs.TableSuccess
import Hypermark.Proofs.VisibleText

/-!
# The links and images of a document

Away from code every opening angle bracket of a document is brought in by a link or an image that is
written in it.  The renderer does not write all of them: a table without rows loses its caption, a
term without a meaning is left out, and a container whose blocks show nothing is written as a line
instead.  `references` follows it down the tree, and `Bears` says of a text that its angle brackets
are those of some links and images.

* `references`: the links and images that are written when a node is rendered.
* `Bears`, `BearsAll`: the brackets of a text, or of texts that are written one after another.
* `bears_render`, `bears_renderItem`: runs of inline content, and items made of such texts.
* `Render.definitions_cons`, `Gauge.definitionList`: what a definition list is made of, and what it
  shows.
-/

namespace Hypermark

open Traced Text

/-! ## References -/

namespace Render

/-- The blocks of siblings show nothing. -/
def showsNothing (opts : Options) (scope : Scope) (ns : List Node) : Bool :=
  match (siblings opts scope ns).outcome with
  | .ok t => Text.allBlank t
  | .error _ => false

/-- A definition list goes on with a meaning. -/
def meaningNext : List Node → Bool
  | [] => false
  | n :: ns => n.tag == "dd".toList || (n.tag != "dt".toList && meaningNext ns)

/-- The links and images in a definition list. -/
def referencesInDefinitions (started : Bool) : List Node → List Node
  | [] => []
  | n :: ns =>
    if n.tag = "dt".toList then
      (if meaningNext ns then Inline.referencesAmong n.children else []) ++
        referencesInDefinitions true ns
    else if n.tag = "dd".toList && started then
      Inline.referencesAmong n.children ++ referencesInDefinitions started ns
    else referencesInDefinitions started ns

/-- The links and images in the caption of a table. -/
def referencesInCaption (table : Place) : List Node :=
  match table.findTag? "caption".toList with
  | some c => Inline.referencesAmong c.node.children
  | none => []

mutual

/-- The links and images that are written when a node is rendered as a block. -/
def references (opts : Options) (scope : Scope) : Node → List Node
  | .element name attrs cs =>
    let n := Node.element name attrs cs
    match n.role with
    | .table =>
      if (rowsAmong opts (name :: scope) cs).isEmpty then []
      else referencesInCaption ⟨[], scope, n⟩ ++ referencesInRows opts (name :: scope) cs
    | .thematicBreak | .preformatted => []
    | .quote => referencesAmong opts (name :: scope) cs
    | .list _ => referencesInItems opts (name :: scope) cs
    | .definitions => referencesInDefinitions false cs
    | .figure | .container =>
      if showsNothing opts (name :: scope) cs then Inline.referencesAmong cs
      else referencesAmong opts (name :: scope) cs
    | _ => Inline.referencesAmong cs
  | _ => []

/-- Among siblings, blocks and runs alike. -/
def referencesAmong (opts : Options) (scope : Scope) : List Node → List Node
  | [] => []
  | n :: ns =>
    (if n.isBlock then references opts scope n else Inline.references n) ++
      referencesAmong opts scope ns

/-- Among the children of a list. -/
def referencesInItems (opts : Options) (scope : Scope) : List Node → List Node
  | [] => []
  | n :: ns =>
    (match n with
      | .element name _ cs =>
        if Text.lower name = "li".toList then referencesAmong opts (name :: scope) cs else []
      | _ => []) ++ referencesInItems opts scope ns

/-- In the rows at or below a node. -/
def referencesInRow (opts : Options) (scope : Scope) : Node → List Node
  | .element name _ cs =>
    (if Text.lower name = "tr".toList && cs.any isCell then
        referencesInCells opts (name :: scope) cs
      else []) ++ referencesInRows opts (name :: scope) cs
  | _ => []

def referencesInRows (opts : Options) (scope : Scope) : List Node → List Node
  | [] => []
  | n :: ns => referencesInRow opts scope n ++ referencesInRows opts scope ns

/-- In the cells among the children of a row. -/
def referencesInCells (opts : Options) (scope : Scope) : List Node → List Node
  | [] => []
  | n :: ns =>
    (match n with
      | .element name attrs cs =>
        if isCell (.element name attrs cs) then
          if showsNothing opts (name :: scope) cs then Inline.referencesAmong cs
          else referencesAmong opts (name :: scope) cs
        else []
      | _ => []) ++ referencesInCells opts scope ns

end

theorem showsNothing_of_blocks {opts : Options} {scope : Scope} {ns : List Node} {parts : List Text}
    (h : (blocks opts scope keepAll [] ns).outcome = .ok parts) :
    showsNothing opts scope ns = Text.allBlank (Text.joinBlocks parts) := by
  have hsiblings : (siblings opts scope ns).outcome = .ok (Text.joinBlocks parts) :=
    bind_outcome_of_ok h _
  rw [showsNothing, hsiblings]

theorem referencesInItems_cons (opts : Options) (scope : Scope) (n : Node) (ns : List Node) :
    referencesInItems opts scope (n :: ns) =
      (if n.tag = "li".toList then
          referencesAmong opts (⟨[], scope, n⟩ : Place).innerScope n.children
        else []) ++ referencesInItems opts scope ns := by
  cases n with
  | element name attrs cs =>
    rw [referencesInItems]
    rfl
  | text t => simp only [referencesInItems, if_neg (not_item_of_no_tag (n := .text t) rfl)]
  | comment t => simp only [referencesInItems, if_neg (not_item_of_no_tag (n := .comment t) rfl)]
  | directive k t => simp only [referencesInItems, if_neg (not_item_of_no_tag (n := .directive k t) rfl)]


theorem referencesAmong_of_inline (opts : Options) (scope : Scope) {ns : List Node}
    (h : ns.any Node.isBlock = false) :
    referencesAmong opts scope ns = Inline.referencesAmong ns := by
  induction ns with
  | nil => rw [referencesAmong, Inline.referencesAmong]
  | cons n ns ih =>
    rw [List.any_cons, Bool.or_eq_false_iff] at h
    rw [referencesAmong, if_neg (Bool.eq_false_iff.mp h.1), ih h.2, Inline.referencesAmong]

end Render

/-! ## Texts and their references -/

open Inline (Clean takenAll)

def isLess (c : Char) : Bool := c == '<'

theorem ink_isLess : Table.Ink isLess where
  blank c h := by
    rw [isLess, beq_eq_false_iff_ne]
    rintro rfl
    cases h
  marker c hc := by
    have hmarkers : markers.all (!isLess ·) = true := by decide
    rw [← Bool.not_eq_true']
    exact List.all_eq_true.mp hmarkers c hc
  bar := rfl
  slash := rfl

theorem length_ink_isLess (t : Text) : (ink isLess t).length = t.count '<' :=
  (List.countP_eq_length_filter (p := isLess)).symm

theorem no_angle_of_ink {t : Text} (h : ink isLess t = []) : '<' ∉ t := by
  rw [← List.count_eq_zero, ← length_ink_isLess, h]
  rfl

/-- The angle brackets of a text are those of some links and images, and open destinations if nothing
that these take over has any. -/
structure Bears (refs : List Node) (t : Text) : Prop where
  count : (ink isLess t).length = takenAll '<' refs
  opens : Clean refs → AnglesOpen t

/-- The same for several texts together. -/
structure BearsAll (refs : List Node) (ts : List Text) : Prop where
  count : (ts.flatMap (ink isLess)).length = takenAll '<' refs
  opens : Clean refs → ∀ t ∈ ts, AnglesOpen t

namespace BearsAll

variable {refs refs' : List Node} {ts ts' : List Text} {t : Text}

theorem nil : BearsAll [] [] := ⟨rfl, fun _ => List.forall_mem_nil _⟩

theorem singleton (h : Bears refs t) : BearsAll refs [t] :=
  ⟨by rw [List.flatMap_singleton, h.count], fun hclean =>
    (List.forall_mem_singleton ..).mpr (h.opens hclean)⟩

theorem append (h : BearsAll refs ts) (h' : BearsAll refs' ts') :
    BearsAll (refs ++ refs') (ts ++ ts') := by
  refine ⟨?_, fun hclean => List.forall_mem_append.mpr ⟨h.opens ?_, h'.opens ?_⟩⟩
  · rw [List.flatMap_append, List.length_append, h.count, h'.count, Inline.takenAll_append]
  · exact hclean.of_subset (List.subset_append_left ..)
  · exact hclean.of_subset (List.subset_append_right ..)

/-- Layout that keeps the brackets in number and place. -/
theorem layout (h : BearsAll refs ts) (hink : ink isLess t = ts.flatMap (ink isLess))
    (hopens : (∀ u ∈ ts, AnglesOpen u) → AnglesOpen t) : Bears refs t :=
  ⟨by rw [hink, h.count], fun hclean => hopens (h.opens hclean)⟩

theorem joinBlocks (h : BearsAll refs ts) : Bears refs (joinBlocks ts) :=
  h.layout (ink_isLess.gauge.joinBlocks ts) AnglesOpen.joinBlocks

theorem unlines (h : BearsAll refs ts) : Bears refs (unlines ts) :=
  h.layout (ink_isLess.gauge.unlines ts) AnglesOpen.unlines

end BearsAll

namespace Bears

variable {refs : List Node} {s t : Text}

theorem layout (h : Bears refs t) (hink : ink isLess s = ink isLess t)
    (hopens : AnglesOpen t → AnglesOpen s) : Bears refs s :=
  ⟨by rw [hink, h.count], fun hclean => hopens (h.opens hclean)⟩

theorem part (h : Bears refs t) : BearsAll refs (Render.part t) := by
  refine ⟨by rw [ink_isLess.gauge.flatMap_part, h.count], fun hclean u hu => ?_⟩
  rw [Render.part] at hu
  split at hu
  · cases hu
  · exact List.mem_singleton.mp hu ▸ h.opens hclean

end Bears

/-! ## Code -/

namespace Node

/-- None of the tags marks code. -/
def Codeless (tags : List Text) : Prop := "code".toList ∉ tags ∧ "pre".toList ∉ tags

theorem Codeless.mono {xs ys : List Text} (h : Codeless ys) (hsub : xs ⊆ ys) : Codeless xs :=
  ⟨fun hmem => h.1 (hsub hmem), fun hmem => h.2 (hsub hmem)⟩

theorem Codeless.spares {xs : List Text} (h : Codeless xs) : Inline.CodeSpares '<' xs :=
  fun hmem => absurd hmem h.1

theorem tags_subset_tagsAll {n : Node} {ns : List Node} (h : n ∈ ns) : n.tags ⊆ tagsAll ns := by
  induction ns with
  | nil => cases h
  | cons m ns ih =>
    rw [tagsAll]
    rcases List.mem_cons.mp h with rfl | h
    · exact List.subset_append_left ..
    · exact List.Subset.trans (ih h) (List.subset_append_right ..)

theorem tagsAll_append (xs ys : List Node) : tagsAll (xs ++ ys) = tagsAll xs ++ tagsAll ys := by
  induction xs with
  | nil => rfl
  | cons x xs ih => rw [List.cons_append, tagsAll, tagsAll, ih, List.append_assoc]

theorem tagsAll_children_subset (n : Node) : tagsAll n.children ⊆ n.tags := by
  cases n with
  | element name attrs cs => exact List.subset_cons_self ..
  | text t => exact List.Subset.refl _
  | comment t => exact List.Subset.refl _
  | directive k t => exact List.Subset.refl _

theorem Codeless.throughout {n : Node} (h : Codeless n.tags) :
    n.Throughout fun m => Codeless m.tags := by
  revert h
  refine (Node.throughout (B := fun n => Codeless n.tags → n.Throughout fun m => Codeless m.tags)
    (fun n ih h => ?_) n).here
  exact .intro h fun c hc =>
    (ih c hc).here (h.mono (List.Subset.trans (tags_subset_tagsAll hc) (tagsAll_children_subset n)))

theorem Codeless.tag_ne {n : Node} (h : Codeless n.tags) : n.tag ≠ "pre".toList := by
  cases n with
  | element name attrs cs =>
    rintro htag
    refine h.2 ?_
    rw [← htag]
    exact List.mem_cons_self ..
  | text t => exact (List.cons_ne_nil _ _).symm
  | comment t => exact (List.cons_ne_nil _ _).symm
  | directive k t => exact (List.cons_ne_nil _ _).symm

theorem Codeless.descendant {p q : Place} (h : Codeless p.node.tags) (hq : q ∈ p.descendants) :
    Codeless q.node.tags :=
  (Place.throughout_of_mem_descendants (fun _ hc => h.throughout.child hc) hq).here

/-- A figure without `pre` elements holds no code. -/
theorem Codeless.parts?_eq_none {figure : Place} (h : Codeless figure.node.tags) :
    Figure.parts? figure = none := by
  have hfind : ∀ p : Place, Codeless p.node.tags → p.findTag? Figure.preTag = none := by
    intro p hp
    refine List.find?_eq_none.mpr fun q hq => ?_
    rw [beq_iff_eq]
    exact (hp.descendant hq).tag_ne
  have hinside : ∀ ps : List Place, (∀ p ∈ ps, p ∈ figure.descendants) →
      Figure.preInside? ps = none := fun ps hps =>
    List.findSome?_eq_none_iff.mpr fun p hp => hfind p (h.descendant (hps p hp))
  have hpre : Figure.codePre? figure = none := by
    rw [Figure.codePre?, hinside, hinside, hinside, hfind figure h]
    · rfl
    · exact fun p hp => List.mem_of_mem_filter hp
    · exact fun p hp => List.mem_of_mem_filter (List.mem_of_mem_filter hp)
    · exact fun p hp => List.mem_of_mem_filter (List.mem_of_mem_filter hp)
  rw [Figure.parts?, hpre]
  split <;> rfl

end Node

/-! ## Runs and items -/

open Node (Codeless tagsAll)

theorem bears_collapse (scope : Scope) {ns : List Node} (hcode : Codeless (tagsAll ns)) :
    Bears (Inline.referencesAmong ns) (Inline.collapse scope ns) :=
  ⟨by rw [length_ink_isLess, Inline.count_collapse_angles scope hcode.spares],
    Inline.anglesOpen_collapse scope hcode.spares⟩

theorem bears_render {scope : Scope} {ns : List Node} (hcode : Codeless (tagsAll ns)) {t : Text}
    (h : (Inline.render scope ns).outcome = .ok t) : Bears (Inline.referencesAmong ns) t := by
  obtain rfl := Except.ok.inj h
  exact bears_collapse scope hcode

namespace Markdown

theorem opens_taken {texts : List Text} {text : Text} {held : Option Text}
    (h : Taken texts text held) (hopens : ∀ t ∈ texts, AnglesOpen t) :
    AnglesOpen text ∧ ∀ t ∈ held, AnglesOpen t := by
  have hnil : AnglesOpen [] := anglesOpen_of_no_angle List.not_mem_nil
  induction h with
  | nothing => exact ⟨hnil, fun t ht => by cases ht⟩
  | line t => exact ⟨hopens t (List.mem_cons_self ..), fun t ht => by cases ht⟩
  | trimmed t => exact ⟨(hopens t (List.mem_cons_self ..)).trim, fun t ht => by cases ht⟩
  | held t =>
    refine ⟨hnil, fun u hu => ?_⟩
    cases hu
    exact hopens t (List.mem_cons_self ..)
  | empty _ ih => exact ih (List.forall_mem_cons.mp hopens).2

/-- An item bears what its segments bear. -/
theorem bears_renderItem {depth : Nat} {marker : Text} (hmarker : ink isLess marker = [])
    {segments : List Segment} {item : Text} (h : (renderItem depth marker segments).outcome = .ok item)
    {refs : List Node} (hrefs : ∀ texts, Rendered segments texts → BearsAll refs texts) :
    Bears refs item := by
  obtain ⟨before, after, text, held, kinds, hrendered, htaken, hlen, rfl⟩ := renderItem_outcome h
  refine (hrefs _ hrendered).layout ?_ fun hopens => ?_
  · rw [ink_isLess.ink_itemText, hmarker, List.nil_append, List.flatMap_append, List.flatMap_append,
      ink_isLess.gauge.taken htaken, flatMap_zip_snd (ink isLess) hlen, List.flatMap_map,
      List.append_assoc]
  · rw [List.forall_mem_append] at hopens
    obtain ⟨htext, hheld⟩ := opens_taken htaken hopens.1
    refine htext.itemText depth (no_angle_of_ink hmarker) ?_
    rw [List.forall_mem_append, List.forall_mem_map]
    exact ⟨fun t ht => hheld t (Option.mem_toList.mp ht), fun s hs =>
      hopens.2 _ (List.of_mem_zip hs).2⟩

end Markdown

/-! ## Definition lists -/

namespace Render

/-- What a child of a definition list adds to it: a term, a meaning once there was a term, or
nothing. -/
theorem definitions_cons {scope : Scope} {started : Bool} {n : Node} {ns : List Node}
    {ds : List Markdown.Definition}
    (h : (Traced.sequence (definitions scope started (n :: ns))).outcome = .ok ds) :
    (n.tag = "dt".toList ∧ ∃ t rest,
      (Inline.render (⟨[], scope, n⟩ : Place).innerScope n.children).outcome = .ok t ∧
      (Traced.sequence (definitions scope true ns)).outcome = .ok rest ∧ ds = .term t :: rest) ∨
    (n.tag = "dd".toList ∧ started = true ∧ ∃ t rest,
      (Inline.render (⟨[], scope, n⟩ : Place).innerScope n.children).outcome = .ok t ∧
      (Traced.sequence (definitions scope true ns)).outcome = .ok rest ∧
      ds = .meaning t :: rest) ∨
    (n.tag ≠ "dt".toList ∧ (n.tag = "dd".toList → started = false) ∧
      (Traced.sequence (definitions scope started ns)).outcome = .ok ds) := by
  have hnone : ∀ tag : Text, tag ≠ [] → ([] : Text) ≠ tag := fun _ => Ne.symm
  cases n with
  | element name attrs cs =>
    have htag : (Node.element name attrs cs).tag = Text.lower name := rfl
    rw [definitions] at h
    rw [htag]
    split at h
    · rename_i hdt
      simp only [Traced.sequence, bind_outcome_eq_ok_iff] at h
      obtain ⟨d, ⟨t, ht, hd⟩, rest, hrest, h⟩ := h
      obtain rfl := Except.ok.inj hd
      exact .inl ⟨hdt, t, rest, ht, hrest, (Except.ok.inj h).symm⟩
    · rename_i hdt
      split at h
      · rename_i hdd
        rw [Bool.and_eq_true, decide_eq_true_eq] at hdd
        simp only [Traced.sequence, bind_outcome_eq_ok_iff] at h
        obtain ⟨d, ⟨t, ht, hd⟩, rest, hrest, h⟩ := h
        obtain rfl := Except.ok.inj hd
        rw [hdd.2] at hrest
        exact .inr (.inl ⟨hdd.1, hdd.2, t, rest, ht, hrest, (Except.ok.inj h).symm⟩)
      · rename_i hdd
        rw [Bool.and_eq_true, decide_eq_true_eq, not_and, Bool.not_eq_true] at hdd
        exact .inr (.inr ⟨hdt, hdd, h⟩)
  | text t => exact .inr (.inr ⟨hnone _ (by decide), fun h => absurd h (hnone _ (by decide)), h⟩)
  | comment t => exact .inr (.inr ⟨hnone _ (by decide), fun h => absurd h (hnone _ (by decide)), h⟩)
  | directive k t =>
    exact .inr (.inr ⟨hnone _ (by decide), fun h => absurd h (hnone _ (by decide)), h⟩)

theorem startsWithMeaning_definitions {scope : Scope} {started : Bool} {ns : List Node}
    {ds : List Markdown.Definition}
    (h : (Traced.sequence (definitions scope started ns)).outcome = .ok ds) :
    Markdown.startsWithMeaning ds = (started && meaningNext ns) := by
  induction ns generalizing started ds with
  | nil =>
    obtain rfl := Except.ok.inj h
    rw [meaningNext, Bool.and_false]
    rfl
  | cons n ns ih =>
    rw [meaningNext]
    rcases definitions_cons h with
      ⟨hdt, t, rest, -, -, rfl⟩ | ⟨hdd, rfl, t, rest, -, -, rfl⟩ | ⟨hdt, hdd, hrest⟩
    · simp [Markdown.startsWithMeaning, hdt]
    · simp [Markdown.startsWithMeaning, hdd]
    · rw [ih hrest, bne_iff_ne.mpr hdt, Bool.true_and]
      cases started with
      | false => rfl
      | true =>
        have hdd' : n.tag ≠ "dd".toList := fun h => Bool.noConfusion (hdd h)
        rw [beq_eq_false_iff_ne.mpr hdd', Bool.false_or]

end Render

namespace Markdown

def meaningLine (m : Text) : Text := ':' :: ' ' :: m

/-- The lines of a definition list; a term has one only if it has a meaning. -/
def definitionLines : List Definition → List Text
  | [] => []
  | .term t :: rest => (if startsWithMeaning rest then [t] else []) ++ definitionLines rest
  | .meaning m :: rest => meaningLine m :: definitionLines rest

end Markdown

namespace Gauge

open Markdown

variable {β : Type} {μ : Text → List β} (hμ : Gauge μ)
include hμ

theorem definitionEntry (term : Text) (meanings : List Text) :
    (definitionEntry term meanings).flatMap μ =
      if meanings.isEmpty then [] else μ term ++ (meanings.map meaningLine).flatMap μ := by
  rw [Markdown.definitionEntry]
  split
  · rfl
  · rw [List.flatMap_singleton, hμ.unlines, List.flatMap_cons]
    rfl

theorem definitionEntries (term : Text) (meanings : List Text) (ds : List Definition) :
    (definitionEntries term meanings ds).flatMap μ =
      (if meanings.isEmpty && !startsWithMeaning ds then []
        else μ term ++ (meanings.map meaningLine).flatMap μ) ++ (definitionLines ds).flatMap μ := by
  induction ds generalizing term meanings with
  | nil =>
    have hnone : startsWithMeaning [] = false := rfl
    rw [Markdown.definitionEntries, hμ.definitionEntry, definitionLines, List.flatMap_nil,
      List.append_nil, hnone, Bool.not_false, Bool.and_true]
  | cons d ds ih =>
    cases d with
    | term t =>
      have hterm : startsWithMeaning (.term t :: ds) = false := rfl
      rw [Markdown.definitionEntries, List.flatMap_append, hμ.definitionEntry, ih, definitionLines,
        List.flatMap_append, hterm, Bool.not_false, Bool.and_true]
      cases startsWithMeaning ds <;> simp
    | meaning m =>
      rw [Markdown.definitionEntries, ih, definitionLines, startsWithMeaning]
      simp

theorem definitionList {ds : List Definition} (h : startsWithMeaning ds = false) :
    μ (definitionList ds) = (definitionLines ds).flatMap μ := by
  cases ds with
  | nil => exact hμ.nil
  | cons d ds =>
    cases d with
    | term t =>
      rw [Markdown.definitionList, hμ.joinBlocks, hμ.definitionEntries, definitionLines,
        List.flatMap_append]
      cases startsWithMeaning ds <;> simp
    | meaning m => cases h

end Gauge

namespace Markdown

theorem ink_definitionLines (ds : List Definition) :
    (definitionLines ds).flatMap (ink isLess) = (entryLines ds).flatMap (ink isLess) := by
  induction ds with
  | nil => rfl
  | cons d ds ih =>
    cases d with
    | term t => rw [definitionLines, entryLines, List.flatMap_append, List.flatMap_append, ih]
    | meaning m =>
      rw [definitionLines, entryLines, List.flatMap_cons, List.flatMap_cons, ih, meaningLine,
        ink_cons_of_neg rfl, ink_cons_of_neg rfl]

theorem ink_definitionList {ds : List Definition} (h : startsWithMeaning ds = false) :
    ink isLess (definitionList ds) = (entryLines ds).flatMap (ink isLess) :=
  (ink_isLess.gauge.definitionList h).trans (ink_definitionLines ds)

end Markdown

end Hypermark
