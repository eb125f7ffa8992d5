import Hypermark.Proofs.FencedBlocks
import Hypermark.Proofs.LanguageLabels

/-!
# Rendering without languages

The languages of code blocks are looked for or not.  Whoever compares the two renderings of a tree
finds the same lines, but that the opening lines of some code blocks have lost a word.

The induction is on the tree.  A code block is where the difference comes in; everything around it
decides by what is the same on both sides, so it only passes the difference on.

* `Lists`: the code block that an element is rendered as.
* `block_listing`, `figure_listing`: the two elements with code.
* `alike_renderItem`: an item, from its segments.
* `relabelling`: blocks and items, by induction on the tree.
* `detection_only_names_languages`: whole documents, line by line.
-/

namespace Hypermark

open Text Markdown Traced
open Session (alike_bind alike_eq_iff alike_sequence)

/-- The same options, but for whether languages are looked for. -/
def Options.detecting (opts : Options) (b : Bool) : Options := { opts with detectLanguage := b }

namespace Render

/-! ## Code blocks -/

/-- The code block that an element is rendered as, with the language that is found for it. -/
inductive Lists (opts : Options) (p : Place) (b : Listing) : Prop
  | preformatted : p.node.role = .preformatted → b.language = p.codeInfo (opts.detecting true) →
      b.caption = [] → b.code = lines p.code → b.fence = codeFence opts.minFence p.code →
      Lists opts p b
  | figure {parts : Figure.Parts} {caption : Text} : p.node.role = .figure →
      Figure.parts? p = some parts → (Figure.detectLanguage p).outcome = .ok b.language →
      (figureCaption parts).outcome = .ok caption → b.caption = caption.filter (!isBacktick ·) →
      b.code = parts.lines → b.fence = codeFence opts.minFence parts.code → Lists opts p b

section Listings

variable {opts : Options} {P : Listing → Prop} {scope : Scope} {name : Text} {attrs : Attributes}
  {cs : List Node}

theorem relabels_block {b : Listing} (hb : P b) {t t' : Text} (ht : lines t = b.labelled)
    (ht' : lines t' = b.bare) : Relabels P t t' := by
  have hblock : Relabelled P (b.labelled.map id ++ []) (b.bare.map id ++ []) :=
    .block hb .here .nil
  rw [List.append_nil, List.append_nil, List.map_id, List.map_id] at hblock
  rw [Relabels, ht, ht']
  exact hblock

theorem info_eq (language caption : Text) : Figure.Parts.info language caption =
    (if language.isEmpty || (caption.filter (!isBacktick ·)).isEmpty then language
      else language ++ [' ']) ++ caption.filter (!isBacktick ·) := by
  rw [Figure.Parts.info]
  generalize caption.filter (!isBacktick ·) = t
  cases language with
  | nil =>
    cases t with
    | nil => rfl
    | cons c t => exact List.intercalate_singleton
  | cons d language =>
    cases t with
    | nil => exact List.intercalate_singleton.trans (List.append_nil _).symm
    | cons c t =>
      exact List.intercalate_cons_cons.trans
        (congrArg (d :: language ++ [' '] ++ ·) List.intercalate_singleton)

/-- A preformatted element, as it is rendered with its language and without. -/
theorem block_listing (opts : Options) (scope : Scope) {n : Node} (hrole : n.role = .preformatted) :
    ∃ b t t', Lists opts ⟨[], scope, n⟩ b ∧ lines t = b.labelled ∧ lines t' = b.bare ∧
      (block (opts.detecting true) scope n).outcome =
        (fence opts (⟨[], scope, n⟩ : Place).code).outcome.map (fun _ => t) ∧
      (block (opts.detecting false) scope n).outcome =
        (fence opts (⟨[], scope, n⟩ : Place).code).outcome.map fun _ => t' := by
  let p : Place := ⟨[], scope, n⟩
  have hinfo := Place.isInfo_of_isNameChar (p.all_isNameChar_codeInfo (opts.detecting true))
  let b : Listing := {
    length := fenceLength opts.minFence p.code
    language := p.codeInfo (opts.detecting true)
    caption := []
    code := lines p.code
    length_pos := fenceLength_pos opts.minFence p.code
    no_feed := by
      rw [List.forall_mem_cons, List.forall_mem_cons]
      exact ⟨fun h => (hinfo _ h).2.1 rfl, List.not_mem_nil, fun l => no_feed_of_mem_lines⟩ }
  have hword : b.word = b.language := if_pos (Bool.or_true _)
  refine ⟨b, _, _, .preformatted hrole rfl rfl rfl rfl, ?_, ?_, block_preformatted _ scope hrole,
    block_preformatted _ scope hrole⟩
  · rw [(p.fenced_code (opts.detecting true)).lines_eq, Listing.labelled, hword, List.append_nil]
    rfl
  · exact (p.fenced_code (opts.detecting false)).lines_eq

/-- The code of a figure, in the same way. -/
theorem figure_listing (opts : Options) {p : Place} {parts : Figure.Parts}
    (hrole : p.node.role = .figure) (hparts : Figure.parts? p = some parts) :
    ∃ b t t', Lists opts p b ∧ lines t = b.labelled ∧ lines t' = b.bare ∧ ∀ before after,
      (codeFigure (opts.detecting true) p parts before after).outcome =
          ((fence opts parts.code).bind fun _ => surrounded before after t).outcome ∧
        (codeFigure (opts.detecting false) p parts before after).outcome =
          ((fence opts parts.code).bind fun _ => surrounded before after t').outcome := by
  obtain ⟨t, hcaption⟩ := figureCaption_outcome parts
  obtain ⟨language, hinfo, hlanguage⟩ := language_outcome (opts.detecting true) p
  have hnone : (if (opts.detecting false).detectLanguage then Figure.detectLanguage p
    else Traced.pure []).outcome = .ok [] := rfl
  let b : Listing := {
    length := fenceLength opts.minFence parts.code
    language := language
    caption := (collapseSpaces t).filter (!isBacktick ·)
    code := parts.lines
    length_pos := fenceLength_pos opts.minFence parts.code
    no_feed := by
      rw [List.forall_mem_cons, List.forall_mem_cons, (Figure.parts?_lines hparts).1]
      exact ⟨fun h => (hinfo _ h).2.1 rfl,
        fun h => (isInfo_filter_collapseSpaces t _ h).2.1 rfl, Figure.no_feed_codeLines⟩ }
  have hlines : ∀ language, IsInfo language → lines (fencedBlock opts.minFence
      (Figure.Parts.info language (collapseSpaces t)) parts.code) =
        (b.fence ++ Figure.Parts.info language (collapseSpaces t)) :: b.body := by
    intro language hlanguage
    have hfenced := fenced_fencedBlock opts.three_le_minFence
      (isInfo_info (t := t) hlanguage rfl) parts.code
    rw [Figure.lines_code hparts, ← (Figure.parts?_lines hparts).1] at hfenced
    exact hfenced.lines_eq
  refine ⟨b, _, _, .figure hrole hparts hlanguage hcaption rfl rfl rfl,
    (hlines language hinfo).trans ?_, (hlines [] isInfo_nil).trans ?_, fun before after =>
      ⟨codeFigure_outcome_of hcaption hlanguage .., codeFigure_outcome_of hcaption hnone ..⟩⟩
  · rw [info_eq, ← List.append_assoc]
    rfl
  · rw [info_eq]
    rfl

end Listings

/-! ## Items -/

theorem alike_self {α : Type} {R : α → α → Prop} (h : ∀ a, R a a) (r : Except Fault α) :
    Session.Alike R r r := by
  cases r with
  | ok a => exact .ok (h a)
  | error e => exact .error e

/-- The same segment, but for languages; in a line there are none. -/
structure AlikeSegment (P : Listing → Prop) (s s' : Segment) : Prop where
  kind : s.kind = s'.kind
  rendering : Session.Alike (Relabels P) s.rendering.outcome s'.rendering.outcome
  inline : s.kind = .inline → s.rendering = s'.rendering

/-- What is left after the marker line. -/
structure AlikeLeading (P : Listing → Prop) (first first' : Leading) : Prop where
  text : first.text = first'.text
  held : List.Forall₂ (Relabels P) first.held.toList first'.held.toList
  rest : List.Forall₂ (AlikeSegment P) first.rest first'.rest

section Items

variable {P : Listing → Prop} {segments segments' : List Segment}

theorem alikeSegment_self (s : Segment) : AlikeSegment P s s :=
  ⟨rfl, alike_self .refl _, fun _ => rfl⟩

/-- A block goes on the marker line only if it is a single line, in which there is no language. -/
theorem alike_leading (h : List.Forall₂ (AlikeSegment P) segments segments') :
    Session.Alike (AlikeLeading P) (leading segments).outcome (leading segments').outcome := by
  induction h with
  | nil => exact .ok ⟨rfl, .nil, .nil⟩
  | @cons s s' rest rest' hs hrest ih =>
    rw [leading, leading, ← hs.kind]
    cases hkind : s.kind with
    | nestedList => exact .ok ⟨rfl, .nil, .cons hs hrest⟩
    | inline =>
      dsimp only
      rw [hs.inline hkind]
      refine alike_bind (alike_eq_iff.mpr rfl) fun t _ ht => ?_
      subst ht
      split
      · exact ih
      · exact .ok ⟨rfl, .nil, hrest⟩
    | block =>
      refine alike_bind hs.rendering fun t t' ht => ?_
      rw [← ht.contains_feed_eq]
      split
      · exact .ok ⟨rfl, .cons ht .nil, hrest⟩
      · rename_i hfeed
        rw [ht.eq_of_no_feed fun hmem => hfeed (List.contains_iff_mem.mpr hmem)]
        exact .ok ⟨rfl, .nil, hrest⟩

theorem relabelsSegment_zip {ts ts' : List Text} (h : List.Forall₂ (Relabels P) ts ts')
    (kinds : List SegmentKind) :
    List.Forall₂ (RelabelsSegment P) (kinds.zip ts) (kinds.zip ts') := by
  induction h generalizing kinds with
  | nil =>
    rw [List.zip_nil_right]
    exact .nil
  | cons ht _ ih =>
    cases kinds with
    | nil => exact .nil
    | cons kind kinds => exact .cons ⟨rfl, ht⟩ (ih kinds)

theorem map_kind_eq (h : List.Forall₂ (AlikeSegment P) segments segments') :
    segments.map (·.kind) = segments'.map (·.kind) := by
  induction h with
  | nil => rfl
  | cons hs _ ih => rw [List.map_cons, List.map_cons, hs.kind, ih]

theorem alike_renderItem (h : List.Forall₂ (AlikeSegment P) segments segments') (depth : Nat)
    (marker : Text) : Session.Alike (Relabels P) (renderItem depth marker segments).outcome
      (renderItem depth marker segments').outcome := by
  refine alike_bind (alike_leading h) fun first first' hfirst => ?_
  have hrenderings : List.Forall₂ (fun x y => Session.Alike (Relabels P) x.outcome y.outcome)
      (first.rest.map (·.rendering)) (first'.rest.map (·.rendering)) :=
    List.forall₂_map_left_iff.mpr <| List.forall₂_map_right_iff.mpr <|
      hfirst.rest.imp fun _ _ hs => hs.rendering
  refine alike_bind (alike_sequence hrenderings) fun ts ts' hts => .ok ?_
  have hheld : List.Forall₂ (RelabelsSegment P) (first.held.toList.map (SegmentKind.block, ·))
      (first'.held.toList.map (SegmentKind.block, ·)) :=
    List.forall₂_map_left_iff.mpr <| List.forall₂_map_right_iff.mpr <|
      hfirst.held.imp fun _ _ ht => ⟨rfl, ht⟩
  rw [hfirst.text, map_kind_eq hfirst.rest]
  exact relabels_itemText depth marker _ (List.rel_append hheld (relabelsSegment_zip hts _))

end Items

/-! ## The recursion -/

/-- All code blocks that the element is rendered as have `P`. -/
def Listed (opts : Options) (P : Listing → Prop) (p : Place) : Prop := ∀ b, Lists opts p b → P b

/-- As a block, and as the items of a list, the node comes to the same but for languages. -/
structure Relabelling (opts : Options) (P : Listing → Prop) (n : Node) : Prop where
  block : ∀ scope, (∀ p ∈ reached scope n, Listed opts P p) →
    Session.Alike (Relabels P) (block (opts.detecting true) scope n).outcome
      (block (opts.detecting false) scope n).outcome
  items : ∀ scope depth due, (∀ p ∈ reachedInItems scope n.children, Listed opts P p) →
    Session.Alike (List.Forall₂ (Relabels P))
      (items (opts.detecting true) scope depth due n.children).outcome
      (items (opts.detecting false) scope depth due n.children).outcome

section Recursion

variable {opts : Options} {P : Listing → Prop} {scope : Scope} {ns : List Node}

theorem relabels_part {t t' : Text} (h : Relabels P t t') :
    List.Forall₂ (Relabels P) (part t) (part t') := by
  rw [part, part, h.allBlank_eq]
  split
  · exact .nil
  · exact .cons h .nil

theorem alike_blocks (h : ∀ n ∈ ns, Relabelling opts P n) {keep : Nat → Bool}
    (hlisted : ∀ p ∈ reachedAmong scope keep ns, Listed opts P p) (pending : List Node) :
    Session.Alike (List.Forall₂ (Relabels P))
      (blocks (opts.detecting true) scope keep pending ns).outcome
      (blocks (opts.detecting false) scope keep pending ns).outcome := by
  have hself : ∀ ts : List Text, List.Forall₂ (Relabels P) ts ts := fun ts =>
    List.forall₂_same.mpr fun t _ => .refl t
  induction ns generalizing keep pending with
  | nil =>
    rw [blocks_nil, blocks_nil]
    exact alike_self hself _
  | cons n ns ih =>
    rw [List.forall_mem_cons] at h
    rw [reachedAmong, List.forall_mem_append] at hlisted
    have hrest := ih h.2 hlisted.2
    rw [blocks, blocks]
    split
    · exact hrest pending
    rename_i hkeep
    split
    · rename_i hblock
      have hhere : ∀ p ∈ reached scope n, Listed opts P p := by
        intro p hp
        refine hlisted.1 p ?_
        rw [Bool.not_eq_true', Bool.not_eq_false] at hkeep
        rwa [hkeep, hblock, Bool.and_self, if_pos rfl]
      refine alike_bind (alike_self hself _) fun before before' hbefore => ?_
      refine alike_bind (h.1.block scope hhere) fun t t' ht => ?_
      refine alike_bind (hrest []) fun after after' hafter => .ok ?_
      exact List.rel_append (List.rel_append hbefore (relabels_part ht)) hafter
    · split
      · exact hrest _
      · exact hrest _

theorem alike_joined (h : ∀ n ∈ ns, Relabelling opts P n)
    (hlisted : ∀ p ∈ reachedAmong scope keepAll ns, Listed opts P p) {f : Text → Text}
    (hf : ∀ t t', Relabels P t t' → Relabels P (f t) (f t')) :
    Session.Alike (Relabels P)
      ((blocks (opts.detecting true) scope keepAll [] ns).bind
        (Traced.pure ∘ f ∘ joinBlocks)).outcome
      ((blocks (opts.detecting false) scope keepAll [] ns).bind
        (Traced.pure ∘ f ∘ joinBlocks)).outcome :=
  alike_bind (alike_blocks h hlisted []) fun _ _ hts => .ok (hf _ _ (relabels_joinBlocks hts))

/-- Siblings, or a line if they come to nothing. -/
theorem alike_fallback (h : ∀ n ∈ ns, Relabelling opts P n)
    (hlisted : ∀ p ∈ reachedAmong scope keepAll ns, Listed opts P p) (line : Traced Text) :
    Session.Alike (Relabels P)
      ((blocks (opts.detecting true) scope keepAll [] ns).bind fun ts =>
        if allBlank (joinBlocks ts) then line else Traced.pure (joinBlocks ts)).outcome
      ((blocks (opts.detecting false) scope keepAll [] ns).bind fun ts =>
        if allBlank (joinBlocks ts) then line else Traced.pure (joinBlocks ts)).outcome := by
  refine alike_bind (alike_blocks h hlisted []) fun ts ts' hts => ?_
  rw [(relabels_joinBlocks hts).allBlank_eq]
  split
  · exact alike_self .refl _
  · exact .ok (relabels_joinBlocks hts)

theorem alike_segments (h : ∀ n ∈ ns, Relabelling opts P n)
    (hlisted : ∀ p ∈ reachedAmong scope keepAll ns, Listed opts P p) (depth : Nat)
    (pending : List Node) : List.Forall₂ (AlikeSegment P)
      (segments (opts.detecting true) scope depth pending ns)
      (segments (opts.detecting false) scope depth pending ns) := by
  have hself : ∀ ss : List Segment, List.Forall₂ (AlikeSegment P) ss ss := fun ss =>
    List.forall₂_same.mpr fun s _ => alikeSegment_self s
  induction ns generalizing pending with
  | nil =>
    rw [segments, segments]
    exact hself _
  | cons n ns ih =>
    rw [List.forall_mem_cons] at h
    rw [reachedAmong, List.forall_mem_append] at hlisted
    have hrest := ih h.2 hlisted.2
    by_cases hb : n.isBlock = true
    · have hhere : ∀ p ∈ reached scope n, Listed opts P p := by
        intro p hp
        refine hlisted.1 p ?_
        rw [hb]
        exact hp
      by_cases hl : ∃ ordered, n.role = .list ordered
      · obtain ⟨ordered, hrole⟩ := hl
        cases n with
        | element name attrs cs =>
          rw [segments_list hrole, segments_list hrole]
          refine List.rel_append (hself _) (.cons ⟨rfl, ?_, nofun⟩ (hrest []))
          refine alike_bind (alike_eq_iff.mpr rfl) fun first _ hfirst => ?_
          subst hfirst
          refine alike_bind (h.1.items _ _ _ fun p hp => hhere p ?_) fun ts ts' hts =>
            .ok (relabels_unlines_texts hts)
          rw [reached]
          simp only [hrole]
          exact List.mem_cons_of_mem _ hp
        | text t => cases hrole
        | comment t => cases hrole
        | directive k t => cases hrole
      · rw [segments_block hb (not_exists.mp hl), segments_block hb (not_exists.mp hl)]
        exact List.rel_append (hself _) (.cons ⟨rfl, h.1.block scope hhere, nofun⟩ (hrest []))
    · rw [Bool.not_eq_true] at hb
      rw [segments_inline hb, segments_inline hb]
      exact hrest _

theorem alike_items (h : ∀ n ∈ ns, ∀ c ∈ n.children, Relabelling opts P c)
    (hlisted : ∀ p ∈ reachedInItems scope ns, Listed opts P p) (depth : Nat) (due : Option Int) :
    Session.Alike (List.Forall₂ (Relabels P))
      (items (opts.detecting true) scope depth due ns).outcome
      (items (opts.detecting false) scope depth due ns).outcome := by
  induction ns generalizing due with
  | nil =>
    rw [items, items]
    exact .ok .nil
  | cons n ns ih =>
    rw [List.forall_mem_cons] at h
    rw [reachedInItems_cons, List.forall_mem_append] at hlisted
    have hrest := ih h.2 hlisted.2
    cases n with
    | element name attrs cs =>
      rw [items, items]
      split
      · rename_i hli
        have hitem : (Node.element name attrs cs).tag = "li".toList := hli
        have hhere : ∀ p ∈ reachedAmong (name :: scope) keepAll cs, Listed opts P p := by
          intro p hp
          refine hlisted.1 p ?_
          rw [if_pos hitem]
          exact hp
        refine alike_bind (alike_eq_iff.mpr rfl) fun number _ hnumber => ?_
        subst hnumber
        refine alike_bind (alike_eq_iff.mpr rfl) fun marker _ hmarker => ?_
        subst hmarker
        refine alike_bind (alike_renderItem (alike_segments h.1 hhere depth []) depth marker) ?_
        intro item item' hitem
        exact alike_bind (hrest _) fun ts ts' hts => .ok (.cons hitem hts)
      · exact hrest due
    | text t => exact hrest due
    | comment t => exact hrest due
    | directive k t => exact hrest due

theorem alike_surrounded {before before' after after' : Traced (List Text)} {t t' : Text}
    (hbefore : Session.Alike (List.Forall₂ (Relabels P)) before.outcome before'.outcome)
    (hafter : Session.Alike (List.Forall₂ (Relabels P)) after.outcome after'.outcome)
    (ht : Relabels P t t') : Session.Alike (Relabels P) (surrounded before after t).outcome
      (surrounded before' after' t').outcome := by
  refine alike_bind hbefore fun above above' habove => ?_
  refine alike_bind hafter fun below below' hbelow => .ok (relabels_joinBlocks ?_)
  exact List.rel_append (List.rel_append (relabels_part (relabels_joinBlocks habove)) (.cons ht .nil))
    (relabels_part (relabels_joinBlocks hbelow))

end Recursion

section Element

variable {opts : Options} {P : Listing → Prop} {scope : Scope} {name : Text} {attrs : Attributes}
  {cs : List Node} (h : ∀ c ∈ cs, Relabelling opts P c)
include h

theorem alike_figure (hrole : (Node.element name attrs cs).role = .figure)
    (hlisted : ∀ p ∈ reached scope (.element name attrs cs), Listed opts P p) :
    Session.Alike (Relabels P) (block (opts.detecting true) scope (.element name attrs cs)).outcome
      (block (opts.detecting false) scope (.element name attrs cs)).outcome := by
  rw [reached, List.forall_mem_cons] at hlisted
  simp only [hrole] at hlisted
  obtain ⟨hhere, hbelow⟩ := hlisted
  cases hparts : Figure.parts? ⟨[], scope, .element name attrs cs⟩ with
  | none =>
    simp only [hparts] at hbelow
    rw [block, block]
    simp only [hrole, hparts]
    exact alike_fallback h hbelow _
  | some parts =>
    simp only [hparts, List.forall_mem_append] at hbelow
    obtain ⟨b, t, t', hlists, ht, ht', hfigure⟩ := figure_listing opts hrole hparts
    rw [block_codeFigure hrole hparts, block_codeFigure hrole hparts, (hfigure _ _).1,
      (hfigure _ _).2]
    refine alike_bind (alike_eq_iff.mpr rfl) fun _ _ _ => ?_
    exact alike_surrounded (alike_blocks h hbelow.1 []) (alike_blocks h hbelow.2 [])
      (relabels_block (hhere b hlists) ht ht')

theorem alike_block (hitems : ∀ c ∈ cs, ∀ d ∈ c.children, Relabelling opts P d)
    (htable : (Node.element name attrs cs).role ≠ .table)
    (hlisted : ∀ p ∈ reached scope (.element name attrs cs), Listed opts P p) :
    Session.Alike (Relabels P) (block (opts.detecting true) scope (.element name attrs cs)).outcome
      (block (opts.detecting false) scope (.element name attrs cs)).outcome := by
  have hbelow := hlisted
  rw [reached, List.forall_mem_cons] at hbelow
  cases hrole : (Node.element name attrs cs).role with
  | table => exact absurd hrole htable
  | figure => exact alike_figure h hrole hlisted
  | preformatted =>
    obtain ⟨b, t, t', hlists, ht, ht', htrue, hfalse⟩ := block_listing opts scope hrole
    rw [htrue, hfalse]
    cases (fence opts (⟨[], scope, .element name attrs cs⟩ : Place).code).outcome with
    | error e => exact .error e
    | ok _ => exact .ok (relabels_block (hbelow.1 b hlists) ht ht')
  | list ordered =>
    simp only [hrole] at hbelow
    rw [block, block]
    simp only [hrole]
    refine alike_bind (alike_eq_iff.mpr rfl) fun first _ hfirst => ?_
    subst hfirst
    exact alike_bind (alike_items hitems hbelow.2 0 _) fun _ _ hts =>
      .ok (relabels_unlines_texts hts)
  | quote =>
    simp only [hrole] at hbelow
    rw [block, block]
    simp only [hrole]
    split
    · exact alike_joined h hbelow.2 fun _ _ ht => ht.quote
    · exact alike_self .refl _
  | container =>
    simp only [hrole] at hbelow
    rw [block, block]
    simp only [hrole]
    exact alike_fallback h hbelow.2 _
  | _ =>
    rw [block, block]
    simp only [hrole]
    exact alike_self .refl _

end Element

theorem relabelling {opts : Options} {P : Listing → Prop} {n : Node}
    (htables : n.Throughout (·.role ≠ .table)) : n.Throughout (Relabelling opts P) := by
  induction htables with
  | @intro n here _ ih =>
    have hchildren : ∀ c ∈ n.children, Relabelling opts P c := fun c hc => (ih c hc).here
    have hitems : ∀ c ∈ n.children, ∀ d ∈ c.children, Relabelling opts P d := fun c hc d hd =>
      ((ih c hc).child hd).here
    refine .intro ⟨fun scope hlisted => ?_, fun scope depth due hlisted => ?_⟩ ih
    · cases n with
      | element name attrs cs => exact alike_block hchildren hitems here hlisted
      | _ => exact alike_self .refl _
    · exact alike_items hitems hlisted depth due

end Render

/-- Without languages every document has the same lines, but that an opening line of a code block may
have lost the word for its language.  The block is what some element of the document is rendered as,
and stands in both renderings from that line on, with the same margin before its lines. -/
theorem detection_only_names_languages (opts : Options) (scope : Scope) (ns : List Node)
    (htables : ∀ n ∈ ns, n.Throughout (·.role ≠ .table)) :
    Session.Alike (fun t t' => (lines t).length = (lines t').length ∧
      ∀ (i : Nat) (l l' : Text), (lines t)[i]? = some l → (lines t')[i]? = some l' → l = l' ∨
        ∃ p ∈ Render.reachedAmong scope Render.keepAll ns, ∃ b, Render.Lists opts p b ∧
          (∃ margin, IsMargin margin ∧ l = margin ++ b.fence ++ b.word ++ b.caption ∧
            l' = margin ++ b.fence ++ b.caption) ∧
          ∃ g, Nesting g ∧ b.labelled.map g <+: (lines t).drop i ∧
            b.bare.map g <+: (lines t').drop i)
      (Render.siblings (opts.detecting true) scope ns).outcome
      (Render.siblings (opts.detecting false) scope ns).outcome := by
  let P : Listing → Prop := fun b =>
    ∃ p ∈ Render.reachedAmong scope Render.keepAll ns, Render.Lists opts p b
  have hchildren : ∀ n ∈ ns, Render.Relabelling opts P n := fun n hn =>
    (Render.relabelling (htables n hn)).here
  have hlisted : ∀ p ∈ Render.reachedAmong scope Render.keepAll ns, Render.Listed opts P p :=
    fun p hp _ hb => ⟨p, hp, hb⟩
  refine alike_bind (Render.alike_blocks hchildren hlisted []) fun ts ts' hts => .ok ?_
  have htext : Relabels P (joinBlocks ts) (joinBlocks ts') := relabels_joinBlocks hts
  refine ⟨htext.length_eq, fun i l l' hl hl' => (htext.line hl hl').imp_right ?_⟩
  rintro ⟨b, g, ⟨p, hp, hb⟩, hg, hlabelled, hbare⟩
  exact ⟨p, hp, b, hb, Relabelled.exists_margin_opening hg hl hl' hlabelled hbare, g, hg, hlabelled,
    hbare⟩

/-- Code in a list in a quotation, and a figure with a caption. -/
def quotedCode : List Node := [
  .element "blockquote".toList [] [.element "ul".toList [] [.element "li".toList [] [
    .text "a".toList,
    .element "pre".toList [("class".toList, some "language-x".toList)] [.text "b".toList]]]],
  .element "figure".toList [("class".toList, some "code".toList)] [
    .element "figcaption".toList [] [.text "c".toList],
    .element "pre".toList [("lang".toList, some "y".toList)] [.text "d".toList]]]

theorem quoted_code_loses_language :
    let t := "> - a\n>\n>   ```x\n>   b\n>   ```\n\n```y c\nd\n```".toList
    let t' := "> - a\n>\n>   ```\n>   b\n>   ```\n\n```c\nd\n```".toList
    (∀ n ∈ quotedCode, n.Throughout (·.role ≠ .table)) ∧
      (Render.siblings (Options.standard.detecting true) [] quotedCode).outcome = .ok t ∧
      (Render.siblings (Options.standard.detecting false) [] quotedCode).outcome = .ok t' ∧
      (lines t).length = (lines t').length := by
  refine ⟨by decide, rfl, rfl, ?_⟩
  have halike := detection_only_names_languages Options.standard [] quotedCode (by decide)
  cases halike with
  | ok h => exact h.1

end Hypermark
