import Hypermark.Convert
import Hypermark.Proofs.MarkedWords

/-!
# The ends of blocks part words

A document is written line by line, and where a block ends the line ends as well.  The lines of a
block are those of its runs and of the blocks in it; an element that flows in a line is no block
there, whatever its tag, so that nothing comes about where it ends.

Away from code and tables the words of the lines are all in the document, in order and with markers
among them.  So what is written before the end of a block is apart from what is written after it.

* `Event`, `written`: the lines of a document and the ends of its blocks, in document order.
* `marked_blocks`, `marked_segments`: siblings have the words of their lines, as blocks and in items.
* `marked_convertTree`: so does a document.
* `block_end_parts_words`: white space stands where a block ends between words.
-/

namespace Hypermark

open Traced Text

namespace Node

/-- None of the tags marks code or a table. -/
structure TextOnly (tags : List Text) : Prop where
  codeless : Codeless tags
  untabled : "table".toList ∉ tags

theorem TextOnly.mono {xs ys : List Text} (h : TextOnly ys) (hsub : xs ⊆ ys) : TextOnly xs :=
  ⟨h.codeless.mono hsub, fun hmem => h.untabled (hsub hmem)⟩

end Node

namespace Render

open Node

/-! ## Events -/

/-- What comes about while a document is written. -/
inductive Event where
  /-- Nodes are written in one line. -/
  | line (scope : Scope) (nodes : List Node)
  /-- A block is over. -/
  | ended (n : Node)

/-- The words that come with an event. -/
def Event.words : Event → List Text
  | line scope ns => Text.words (Inline.collapse scope ns)
  | ended _ => []

/-- The words of a sequence of events. -/
def wordsOf (es : List Event) : List Text := es.flatMap Event.words

theorem wordsOf_append (es es' : List Event) : wordsOf (es ++ es') = wordsOf es ++ wordsOf es' :=
  List.flatMap_append

theorem wordsOf_cons (e : Event) (es : List Event) : wordsOf (e :: es) = e.words ++ wordsOf es :=
  List.flatMap_cons

theorem wordsOf_line (scope : Scope) (ns : List Node) :
    wordsOf [.line scope ns] = Text.words (Inline.collapse scope ns) := List.flatMap_singleton ..

theorem wordsOf_ended (es : List Event) (n : Node) : wordsOf (es ++ [.ended n]) = wordsOf es := by
  rw [wordsOf_append]
  exact List.append_nil _

/-- The lines of a definition list: terms that have a meaning, and meanings that have a term. -/
def writtenInDefinitions (scope : Scope) (started : Bool) : List Node → List Event
  | [] => []
  | n :: ns =>
    let line := Event.line (⟨[], scope, n⟩ : Place).innerScope n.children
    if n.tag = "dt".toList then
      (if meaningNext ns then [line] else []) ++ writtenInDefinitions scope true ns
    else if n.tag = "dd".toList && started then line :: writtenInDefinitions scope started ns
    else writtenInDefinitions scope started ns

mutual

/-- What comes about while a node is written as a block, the end of the block last.  Code and tables
are left out. -/
def written (opts : Options) (scope : Scope) : Node → List Event
  | .element name attrs cs =>
    let n := Node.element name attrs cs
    (match n.role with
      | .thematicBreak | .preformatted | .table => []
      | .quote =>
        if cs.any Node.isBlock then writtenAmong opts (name :: scope) isShown [] cs
        else [.line (name :: scope) cs]
      | .list _ => writtenInItems opts (name :: scope) cs
      | .definitions => writtenInDefinitions (name :: scope) false cs
      | .figure | .container =>
        if showsNothing opts (name :: scope) cs then [.line (name :: scope) cs]
        else writtenAmong opts (name :: scope) isShown [] cs
      | _ => [.line (name :: scope) cs]) ++ [.ended n]
  | _ => []

/-- The same for siblings: the nodes of runs, out of those that are kept for them, go in lines. -/
def writtenAmong (opts : Options) (scope : Scope) (kept : Node → Bool) (pending : List Node) :
    List Node → List Event
  | [] => [.line scope pending]
  | n :: ns =>
    if n.isBlock then
      .line scope pending :: (written opts scope n ++ writtenAmong opts scope kept [] ns)
    else if kept n then writtenAmong opts scope kept (pending ++ [n]) ns
    else writtenAmong opts scope kept pending ns

/-- The same for the children of a list; items take every node into their runs. -/
def writtenInItems (opts : Options) (scope : Scope) : List Node → List Event
  | [] => []
  | n :: ns =>
    (match n with
      | .element name _ cs =>
        if Text.lower name = "li".toList then
          writtenAmong opts (name :: scope) (fun _ => true) [] cs
        else []
      | _ => []) ++ writtenInItems opts scope ns

end

theorem writtenInItems_cons (opts : Options) (scope : Scope) (n : Node) (ns : List Node) :
    writtenInItems opts scope (n :: ns) =
      (if n.tag = "li".toList then
          writtenAmong opts (⟨[], scope, n⟩ : Place).innerScope (fun _ => true) [] n.children
        else []) ++ writtenInItems opts scope ns := by
  cases n with
  | element name attrs cs =>
    rw [writtenInItems]
    rfl
  | text t => simp only [writtenInItems, if_neg (not_item_of_no_tag (n := .text t) rfl)]
  | comment t => simp only [writtenInItems, if_neg (not_item_of_no_tag (n := .comment t) rfl)]
  | directive k t => simp only [writtenInItems, if_neg (not_item_of_no_tag (n := .directive k t) rfl)]

/-! ## Definition lists -/

variable {opts : Options}

theorem wordsOf_definitions {scope : Scope} {started : Bool} {ns : List Node}
    {ds : List Markdown.Definition}
    (h : (Traced.sequence (definitions scope started ns)).outcome = .ok ds) :
    wordsOf (writtenInDefinitions scope started ns) = (Markdown.entryLines ds).flatMap Text.words := by
  induction ns generalizing started ds with
  | nil =>
    obtain rfl := Except.ok.inj h
    rfl
  | cons n ns ih =>
    rw [writtenInDefinitions]
    rcases definitions_cons h with
      ⟨hdt, t, rest, ht, hrest, rfl⟩ | ⟨hdd, rfl, t, rest, ht, hrest, rfl⟩ | ⟨hdt, hdd, hrest⟩
    · obtain rfl := Except.ok.inj ht
      have hterm : wordsOf (if meaningNext ns then
            [.line (⟨[], scope, n⟩ : Place).innerScope n.children] else []) =
          (if Markdown.startsWithMeaning rest then
            [Inline.collapse (⟨[], scope, n⟩ : Place).innerScope n.children] else []).flatMap
              Text.words := by
        rw [startsWithMeaning_definitions hrest, Bool.true_and]
        split <;> rfl
      rw [if_pos hdt, wordsOf_append, Markdown.entryLines, List.flatMap_append, ih hrest, hterm]
    · obtain rfl := Except.ok.inj ht
      have hdt : n.tag ≠ "dt".toList := by rw [hdd]; decide
      rw [if_neg hdt, if_pos (by rw [hdd]; rfl), wordsOf_cons, ih hrest]
      rfl
    · have hmeaning : ¬(n.tag = "dd".toList && started) = true := by
        simpa only [Bool.and_eq_true, decide_eq_true_eq, not_and, Bool.not_eq_true] using hdd
      rw [if_neg hdt, if_neg hmeaning]
      exact ih hrest

/-! ## The recursion -/

/-- What is known of a node once all nodes below it are understood: as a block it has the words of its
lines, and so do its children as the items of a list. -/
structure Laid (opts : Options) (n : Node) : Prop where
  block : TextOnly n.tags → n.isBlock = true → ∀ scope t,
    (block opts scope n).outcome = .ok t → Marked (wordsOf (written opts scope n)) (Text.words t)
  items : TextOnly n.tags → ∀ scope depth due ls,
    (items opts scope depth due n.children).outcome = .ok ls →
      Marked (wordsOf (writtenInItems opts scope n.children)) (ls.flatMap Text.words)

section Siblings

variable {ns : List Node} (h : ∀ n ∈ ns, n.Throughout (Laid opts))
include h

theorem marked_blocks {scope : Scope} (pending : List Node) {parts : List Text}
    (htags : TextOnly (tagsAll ns))
    (hok : (blocks opts scope keepAll pending ns).outcome = .ok parts) :
    Marked (wordsOf (writtenAmong opts scope isShown pending ns)) (parts.flatMap Text.words) := by
  induction ns generalizing pending parts with
  | nil =>
    rw [blocks] at hok
    rw [writtenAmong, wordsOf_line, gauge_words.run hok]
    exact .refl _
  | cons n ns ih =>
    rw [List.forall_mem_cons] at h
    have hns := htags.mono (List.subset_append_right n.tags (tagsAll ns))
    rw [blocks, keepAll, Bool.not_true, if_neg Bool.false_ne_true] at hok
    rw [writtenAmong]
    by_cases hb : n.isBlock = true
    · rw [if_pos hb] at hok ⊢
      simp only [bind_outcome_eq_ok_iff] at hok
      obtain ⟨before, hbefore, t, ht, rest, hrest, hok⟩ := hok
      obtain rfl := Except.ok.inj hok
      have hn := h.1.here.block (htags.mono (List.subset_append_left ..)) hb scope t ht
      rw [wordsOf_cons, wordsOf_append, List.flatMap_append, List.flatMap_append,
        gauge_words.run hbefore, gauge_words.flatMap_part, List.append_assoc]
      exact (Marked.refl _).append (hn.append (ih h.2 [] hns hrest))
    · rw [if_neg hb] at hok ⊢
      by_cases hs : isShown n = true
      · rw [if_pos hs] at hok ⊢
        exact ih h.2 (pending ++ [n]) hns hok
      · rw [if_neg hs] at hok ⊢
        exact ih h.2 pending hns hok

theorem marked_segments {scope : Scope} {depth : Nat} (pending : List Node) {texts : List Text}
    (htags : TextOnly (tagsAll ns))
    (hok : Markdown.Rendered (segments opts scope depth pending ns) texts) :
    Marked (wordsOf (writtenAmong opts scope (fun _ => true) pending ns))
      (texts.flatMap Text.words) := by
  induction ns generalizing pending texts with
  | nil =>
    rw [segments] at hok
    rw [writtenAmong, wordsOf_line, gauge_words.runSegment hok]
    exact .refl _
  | cons n ns ih =>
    rw [List.forall_mem_cons] at h
    have hns := htags.mono (List.subset_append_right n.tags (tagsAll ns))
    have hn := htags.mono (List.subset_append_left n.tags (tagsAll ns))
    rw [writtenAmong]
    by_cases hb : n.isBlock = true
    · rw [if_pos hb]
      -- The run before a block or list, the block or list itself, and the segments after it.
      have hparts : ∀ s, Markdown.Rendered
          (runSegment scope pending ++ s :: segments opts scope depth [] ns) texts →
            (∀ t, s.rendering.outcome = .ok t →
              Marked (wordsOf (written opts scope n)) (Text.words t)) →
              Marked (wordsOf (.line scope pending :: (written opts scope n ++
                writtenAmong opts scope (fun _ => true) [] ns))) (texts.flatMap Text.words) := by
        intro s hs hmarked
        obtain ⟨before, after, hbefore, hafter, rfl⟩ := forall₂_append_left hs
        cases hafter with
        | cons ht hrest =>
          rw [wordsOf_cons, wordsOf_append, List.flatMap_append, List.flatMap_cons,
            gauge_words.runSegment hbefore]
          exact (Marked.refl _).append ((hmarked _ ht).append (ih h.2 [] hns hrest))
      by_cases hl : ∃ ordered, n.role = .list ordered
      · obtain ⟨ordered, hrole⟩ := hl
        cases n with
        | element name attrs cs =>
          rw [segments_list hrole] at hok
          refine hparts _ hok fun t ht => ?_
          simp only [bind_outcome_eq_ok_iff] at ht
          obtain ⟨first, _, ls, hls, ht⟩ := ht
          obtain rfl := Except.ok.inj ht
          simp only [written, hrole, wordsOf_ended, gauge_words.unlines]
          exact h.1.here.items hn (name :: scope) (depth + 1) first ls hls
        | text t => cases hrole
        | comment t => cases hrole
        | directive k t => cases hrole
      · rw [segments_block hb (not_exists.mp hl)] at hok
        exact hparts _ hok (h.1.here.block hn hb scope)
    · rw [segments_inline (Bool.eq_false_iff.mpr hb)] at hok
      rw [if_neg hb, if_pos rfl]
      exact ih h.2 (pending ++ [n]) hns hok

theorem marked_items {scope : Scope} {depth : Nat} {due : Option Int} (htags : TextOnly (tagsAll ns))
    {ls : List Text} (hok : (items opts scope depth due ns).outcome = .ok ls) :
    Marked (wordsOf (writtenInItems opts scope ns)) (ls.flatMap Text.words) := by
  induction ns generalizing due ls with
  | nil =>
    rw [items] at hok
    obtain rfl := Except.ok.inj hok
    rw [writtenInItems]
    exact .nil
  | cons n ns ih =>
    rw [List.forall_mem_cons] at h
    have hns := htags.mono (List.subset_append_right n.tags (tagsAll ns))
    have hcs := (htags.mono (List.subset_append_left n.tags (tagsAll ns))).mono
      (tagsAll_children_subset n)
    rw [writtenInItems_cons]
    rcases items_cons hok with
      ⟨hli, number, marker, item, rest, -, hmarker, hitem, hrest, rfl⟩ | ⟨hli, hrest⟩
    · obtain ⟨texts, htexts, hwords⟩ := Marked.renderItem hmarker hitem
      have hsegments := marked_segments (fun c hc => h.1.child hc) [] hcs htexts
      rw [if_pos hli, wordsOf_append, List.flatMap_cons]
      exact (hsegments.trans hwords).append (ih h.2 hns hrest)
    · rw [if_neg hli]
      exact ih h.2 hns hrest

/-- Blocks that show nothing give way to a line. -/
theorem marked_inside {scope : Scope} (htags : TextOnly (tagsAll ns)) {t : Text}
    (hok : ((blocks opts scope keepAll [] ns).bind fun parts =>
      if Text.allBlank (Text.joinBlocks parts) then Inline.render scope ns
      else Traced.pure (Text.joinBlocks parts)).outcome = .ok t) :
    Marked (wordsOf (if showsNothing opts scope ns then [.line scope ns]
      else writtenAmong opts scope isShown [] ns)) (Text.words t) := by
  rw [bind_outcome_eq_ok_iff] at hok
  obtain ⟨parts, hparts, hok⟩ := hok
  rw [showsNothing_of_blocks hparts]
  split at hok
  · rename_i hblank
    obtain rfl := Except.ok.inj hok
    rw [if_pos hblank, wordsOf_line]
    exact .refl _
  · rename_i hblank
    obtain rfl := Except.ok.inj hok
    rw [if_neg hblank, gauge_words.joinBlocks]
    exact marked_blocks h [] htags hparts

end Siblings

theorem marked_block {n : Node} (h : ∀ c ∈ n.children, c.Throughout (Laid opts))
    (htags : TextOnly n.tags) (hblock : n.isBlock = true) {scope : Scope} {t : Text}
    (hok : (block opts scope n).outcome = .ok t) :
    Marked (wordsOf (written opts scope n)) (Text.words t) := by
  cases n with
  | text t => cases hblock
  | comment t => cases hblock
  | directive k t => cases hblock
  | element name attrs cs =>
    have hcs : TextOnly (tagsAll cs) := htags.mono (List.subset_cons_self ..)
    cases hrole : (Node.element name attrs cs).role with
    | heading level =>
      simp only [block, hrole, bind_outcome_eq_ok_iff] at hok
      obtain ⟨line, hline, hok⟩ := hok
      obtain rfl := Except.ok.inj hline
      obtain rfl := Except.ok.inj hok
      simp only [written, hrole, wordsOf_ended, wordsOf_line]
      exact .heading level _
    | paragraph =>
      simp only [block, hrole] at hok
      obtain rfl := Except.ok.inj hok
      simp only [written, hrole, wordsOf_ended, wordsOf_line]
      exact .refl _
    | thematicBreak =>
      simp only [block, hrole] at hok
      obtain rfl := Except.ok.inj hok
      simp only [written, hrole, wordsOf_ended]
      exact .thematicBreak
    | quote =>
      simp only [block, hrole] at hok
      simp only [written, hrole, wordsOf_ended]
      split at hok
      · rename_i hblocks
        rw [bind_outcome_eq_ok_iff] at hok
        obtain ⟨parts, hparts, hok⟩ := hok
        obtain rfl := Except.ok.inj hok
        rw [if_pos hblocks]
        have hinside := marked_blocks h [] hcs hparts
        rw [← gauge_words.joinBlocks] at hinside
        exact hinside.trans (.quote _)
      · rename_i hblocks
        rw [bind_outcome_eq_ok_iff] at hok
        obtain ⟨line, hline, hok⟩ := hok
        obtain rfl := Except.ok.inj hline
        obtain rfl := Except.ok.inj hok
        rw [if_neg hblocks, wordsOf_line]
        exact .quote _
    | preformatted =>
      exact absurd (tag_of_role hrole (by decide) (by decide)) htags.codeless.tag_ne
    | list ordered =>
      simp only [block, hrole, bind_outcome_eq_ok_iff] at hok
      obtain ⟨first, _, ls, hls, hok⟩ := hok
      obtain rfl := Except.ok.inj hok
      simp only [written, hrole, wordsOf_ended, gauge_words.unlines]
      exact marked_items h hcs hls
    | definitions =>
      simp only [block, hrole, bind_outcome_eq_ok_iff] at hok
      obtain ⟨ds, hds, hok⟩ := hok
      obtain rfl := Except.ok.inj hok
      simp only [written, hrole, wordsOf_ended, wordsOf_definitions hds]
      exact .definitionList (startsWithMeaning_definitions hds)
    | table =>
      have htag : (Node.element name attrs cs).tag = "table".toList :=
        tag_of_role hrole (by decide) (by decide)
      refine absurd ?_ htags.untabled
      rw [← htag]
      exact List.mem_cons_self ..
    | figure =>
      have hparts : Figure.parts? ⟨[], scope, .element name attrs cs⟩ = none :=
        Codeless.parts?_eq_none htags.codeless
      simp only [block, hrole, hparts] at hok
      simp only [written, hrole, wordsOf_ended]
      exact marked_inside h hcs hok
    | container =>
      simp only [block, hrole] at hok
      simp only [written, hrole, wordsOf_ended]
      exact marked_inside h hcs hok
    | _ =>
      rw [Node.isBlock, hrole] at hblock
      cases hblock

theorem laid (n : Node) : n.Throughout (Laid opts) := by
  refine Node.throughout (fun n h => ?_) n
  exact ⟨fun htags hblock _ _ hok => marked_block h htags hblock hok,
    fun htags _ _ _ _ hok => marked_items h (htags.mono (tagsAll_children_subset n)) hok⟩

end Render

/-! ## Documents -/

open Node (TextOnly tagsAll)
open Render (Event)

/-- What comes about while a document is written. -/
def writtenTree (opts : Options) (ns : List Node) : List Event :=
  Render.writtenAmong opts [Place.documentTag] Render.isShown [] ns

/-- A document has the words of its lines, and markers among them. -/
theorem marked_convertTree {opts : Options} {ns : List Node} (htags : TextOnly (tagsAll ns)) {t : Text}
    (h : (convertTree opts ns).outcome = .ok t) :
    Marked (Render.wordsOf (writtenTree opts ns)) (words t) := by
  simp only [convertTree, Render.siblings, bind_outcome_eq_ok_iff] at h
  obtain ⟨joined, ⟨parts, hparts, hjoined⟩, h⟩ := h
  obtain rfl := Except.ok.inj hjoined
  obtain rfl := Except.ok.inj h
  have hmarked := Render.marked_blocks (fun n _ => Render.laid n) [] htags hparts
  rwa [← gauge_words.joinBlocks, ← gauge_words.normalize opts.maxBlankLines] at hmarked

/-- Away from code and tables, white space stands where a block ends between words: the words written
before are on one side of it, and the words written after on the other. -/
theorem block_end_parts_words (opts : Options) (ns : List Node) (t : Text)
    (htags : TextOnly (tagsAll ns)) (h : (convertTree opts ns).outcome = .ok t)
    (before after : List Event) (n : Node)
    (hevents : writtenTree opts ns = before ++ .ended n :: after)
    (hbefore : Render.wordsOf before ≠ []) (hafter : Render.wordsOf after ≠ []) :
    ∃ a gap b, t = a ++ gap ++ b ∧ gap ≠ [] ∧ (∀ c ∈ gap, isBlank c = true) ∧
      Marked (Render.wordsOf before) (words a) ∧ Marked (Render.wordsOf after) (words b) := by
  have hmarked := marked_convertTree htags h
  rw [hevents, Render.wordsOf_append, Render.wordsOf_cons] at hmarked
  obtain ⟨vs, vs', hwords, hvs, hvs'⟩ := hmarked.split
  obtain ⟨a, gap, b, rfl, hne, hgap, rfl, rfl⟩ :=
    exists_gap hwords (hvs.ne_nil hbefore) (hvs'.ne_nil hafter)
  exact ⟨a, gap, b, rfl, hne, hgap, hvs, hvs'⟩

/-- A paragraph in an item, with a text in front of it and another one after the list. -/
theorem paragraph_end_parts_words :
    let text := "- a\n\n  b\n\nc".toList
    (convertTree Options.standard [.element "ul".toList [] [.element "li".toList [] [.text "a".toList,
      .element "p".toList [] [.text "b".toList]]], .text "c".toList]).outcome = .ok text ∧
      ∃ a gap b, text = a ++ gap ++ b ∧ gap ≠ [] ∧ (∀ c ∈ gap, isBlank c = true) ∧
        Marked ["a".toList, "b".toList] (words a) ∧ Marked ["c".toList] (words b) := by
  have hevents : writtenTree Options.standard [.element "ul".toList [] [.element "li".toList [] [
      .text "a".toList, .element "p".toList [] [.text "b".toList]]], .text "c".toList] =
      [.line [Place.documentTag] [], .line ["li".toList, "ul".toList, Place.documentTag]
        [.text "a".toList], .line ["p".toList, "li".toList, "ul".toList, Place.documentTag]
        [.text "b".toList]] ++ .ended (.element "p".toList [] [.text "b".toList]) ::
      [.line ["li".toList, "ul".toList, Place.documentTag] [],
        .ended (.element "ul".toList [] [.element "li".toList [] [.text "a".toList,
          .element "p".toList [] [.text "b".toList]]]),
        .line [Place.documentTag] [.text "c".toList]] := rfl
  exact ⟨rfl, block_end_parts_words Options.standard _ _ ⟨⟨by decide, by decide⟩, by decide⟩ rfl
    _ _ _ hevents (by decide) (by decide)⟩

/-- In the line of a meaning paragraphs do not end anything. -/
theorem paragraphs_in_meaning_glued :
    let first : Node := .element "p".toList [] [.text "a".toList]
    let second : Node := .element "p".toList [] [.text "b".toList]
    let ns : List Node := [.element "dl".toList [] [.element "dt".toList [] [.text "t".toList],
      .element "dd".toList [] [first, second]]]
    TextOnly (tagsAll ns) ∧ first.isBlock = true ∧
      (convertTree Options.standard ns).outcome = .ok "t\n: ab".toList ∧
      words "t\n: ab".toList = ["t".toList, ":".toList, "ab".toList] :=
  ⟨⟨⟨by decide, by decide⟩, by decide⟩, by decide, rfl, by decide⟩

end Hypermark
