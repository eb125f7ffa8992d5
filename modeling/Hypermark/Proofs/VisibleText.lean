import Hypermark.Convert
import Hypermark.Proofs.BufferInk
import Hypermark.Proofs.Prose
import Hypermark.Proofs.Recursion
import Hypermark.Proofs.SpacedParts

/-!
# Visible text is kept

For running text the ink of the output is the ink of the visible text: nothing is lost, doubled or
put elsewhere.  Siblings are gathered into runs before they are rendered, so what the induction
over siblings keeps is that the parts so far and the run still pending have the ink of the nodes
that were passed.

* `Inline.ink_inline`: a run in a line has the ink of its visible text.
* `Markdown.ink_renderItem`: a list item has the ink of its segments, each of them once.
* `visible_text_kept`: the same for whole documents.
-/

namespace Hypermark

open Traced

variable {p : Char → Bool} (hp : Ink p)
include hp

namespace Inline

open Buffer Node

/-- A node adds the ink of its visible text to a buffer, and is no dropped link. -/
def Adds (p : Char → Bool) (n : Node) : Prop :=
  Plain n → ∀ scope b,
    inkOf p (addNode scope n b).1 = inkOf p b ++ Text.ink p n.visibleText ∧
      (addNode scope n b).2 = false

omit hp in
theorem inkOf_addNodes {ns : List Node} (h : ∀ n ∈ ns, n.Throughout (Adds p))
    (hplain : ∀ n ∈ ns, Plain n) (scope : Scope) (b : Buffer) :
    inkOf p (addNodes scope false ns b) = inkOf p b ++ Text.ink p (visibleTexts ns) := by
  induction ns generalizing b with
  | nil => rw [addNodes, visibleTexts, Text.ink_nil, List.append_nil]
  | cons n ns ih =>
    rw [List.forall_mem_cons] at h hplain
    have hn := h.1.here hplain.1 scope b
    rw [addNodes_cons, hn.2, ih h.2 hplain.2, hn.1, visibleTexts, Text.ink_append, List.append_assoc]

theorem adds (n : Node) : n.Throughout (Adds p) := by
  refine Node.throughout (fun n h => ?_) n
  intro hplain scope b
  cases n with
  | text t =>
    rw [addNode]
    exact ⟨inkOf_addText b _, rfl⟩
  | comment t =>
    rw [addNode]
    exact ⟨(List.append_nil _).symm, rfl⟩
  | directive k t =>
    rw [addNode]
    exact ⟨(List.append_nil _).symm, rfl⟩
  | element name attrs cs =>
    by_cases hi : (element name attrs cs).role = .ignored
    · simp only [addNode, hi]
      rw [visibleText_of_ignored hi, Text.ink_nil, List.append_nil]
      exact ⟨rfl, trivial⟩
    have hbelow : ∀ b, inkOf p (addNodes (name :: scope) false cs b) =
        inkOf p b ++ Text.ink p (visibleTexts cs) :=
      inkOf_addNodes h (hplain.below hi) (name :: scope)
    have hprose := hplain.prose hi
    have hvoid := hplain.voidBlank hi
    rw [visibleText_of_element rfl hi]
    show _ = _ ++ Text.ink p (visibleTexts cs) ∧ _
    cases hrole : (element name attrs cs).role with
    | ignored => exact absurd hrole hi
    | link =>
      have hhref : (hrefOf (element name attrs cs)).isEmpty = true := by
        simpa only [isProse, hrole] using hprose
      simp only [addNode, hrole, if_pos hhref]
      rw [inkOf_addAnchor hp, hbelow, inkOf_nil, List.nil_append]
      exact ⟨rfl, trivial⟩
    | lineBreak =>
      have hblank : Text.allBlank (visibleTexts cs) = true := by
        simpa only [isVoidBlank, hrole, children] using hvoid
      simp only [addNode, hrole]
      rw [hp.gauge.of_allBlank hblank, addBreak, inkOf_append]
      exact ⟨rfl, trivial⟩
    | image => simp [isProse, hrole] at hprose
    | code => simp [isProse, hrole] at hprose
    | strong =>
      have hmark : Text.ink p strongMark = [] :=
        Text.ink_eq_nil (by simp [strongMark, hp.marker '*' (by decide)])
      simp only [addNode, hrole]
      rw [inkOf_addWrapped hp hmark, hbelow, inkOf_nil, List.nil_append]
      exact ⟨rfl, trivial⟩
    | emphasis =>
      have hmark : Text.ink p emphasisMark = [] :=
        Text.ink_eq_nil (by simp [emphasisMark, hp.marker '*' (by decide)])
      simp only [addNode, hrole]
      rw [inkOf_addWrapped hp hmark, hbelow, inkOf_nil, List.nil_append]
      exact ⟨rfl, trivial⟩
    | _ =>
      simp only [addNode, hrole]
      exact ⟨hbelow b, trivial⟩

theorem ink_inline {ns : List Node} (hplain : ∀ n ∈ ns, Plain n) (scope : Scope) :
    Text.ink p (Inline.collapse scope ns) = Text.ink p (visibleTexts ns) := by
  rw [Inline.collapse, ink_collapse hp, buffer, inkOf_addNodes (fun n _ => adds hp n) hplain,
    inkOf_nil, List.nil_append]

end Inline

/-! ## List items -/

namespace Markdown

/-- An item has the ink of its marker and of its segments in order. -/
theorem ink_renderItem {depth : Nat} {marker : Text} {segments : List Segment} {item : Text}
    (h : (renderItem depth marker segments).outcome = .ok item) :
    ∃ texts, Rendered segments texts ∧
      Text.ink p item = Text.ink p marker ++ texts.flatMap (Text.ink p) := by
  obtain ⟨texts, text, below, hrendered, htexts, hitem⟩ := hp.gauge.renderItem h
  exact ⟨texts, hrendered, by rw [hitem, hp.ink_markerLine, htexts, List.append_assoc]⟩

end Markdown

/-! ## The recursion -/

namespace Render

open Node

variable {opts : Options}

/-- What is known of a node of running text once all nodes below it are understood: as a block it
gives the ink of its visible text, and so do its children as the items of a list. -/
structure Faithful (p : Char → Bool) (opts : Options) (n : Node) : Prop where
  block : Plain n → n.isBlock = true → ∀ scope t, (block opts scope n).outcome = .ok t →
    Text.ink p t = Text.ink p n.visibleText
  items : (∀ c ∈ n.children, Plain c) → n.children.all isItemOrBlank = true →
    ∀ scope depth due ls, (items opts scope depth due n.children).outcome = .ok ls →
      ls.flatMap (Text.ink p) = Text.ink p (visibleTexts n.children)

theorem ink_run {scope : Scope} {ns : List Node} {parts : List Text} (hplain : ∀ n ∈ ns, Plain n)
    (h : (run scope ns).outcome = .ok parts) :
    parts.flatMap (Text.ink p) = Text.ink p (visibleTexts ns) :=
  (hp.gauge.run h).trans (Inline.ink_inline hp hplain scope)

theorem ink_runSegment {scope : Scope} {ns : List Node} {texts : List Text}
    (hplain : ∀ n ∈ ns, Plain n) (h : Markdown.Rendered (runSegment scope ns) texts) :
    texts.flatMap (Text.ink p) = Text.ink p (visibleTexts ns) :=
  (hp.gauge.runSegment h).trans (Inline.ink_inline hp hplain scope)

omit hp in
theorem visibleText_of_not_isShown {n : Node} (h : isShown n = false) : n.visibleText = [] := by
  cases n with
  | text t => cases h
  | comment t => rfl
  | directive k t => rfl
  | element name attrs cs =>
    apply visibleText_of_ignored
    simpa [isShown, Node.isText, Node.isElement] using h

theorem ink_itemMarker {depth : Nat} {number : Option Int} {marker : Text}
    (h : itemMarker depth number = .ok marker) : Text.ink p marker = [] := by
  cases number with
  | none =>
    obtain rfl := Except.ok.inj h
    exact hp.ink_bulletMarker depth
  | some k =>
    simp only [itemMarker, Text.writeInteger] at h
    split at h
    · obtain rfl := Except.ok.inj h
      exact hp.ink_numberMarker depth k
    · cases h

/-- A list as a block of its own or inside an item. -/
theorem ink_list {name : Text} {attrs : Attributes} {cs : List Node} {ordered : Bool}
    (hrole : (Node.element name attrs cs).role = .list ordered)
    (h : ∀ scope depth due ls, (items opts scope depth due cs).outcome = .ok ls →
      ls.flatMap (Text.ink p) = Text.ink p (visibleTexts cs))
    {scope : Scope} {depth : Nat} {t : Text}
    (hok : ((ofSized (firstNumber ordered (.element name attrs cs))).bind fun first =>
      (items opts (name :: scope) depth first cs).bind
        (Traced.pure ∘ Text.unlines)).outcome = .ok t) :
    Text.ink p t = Text.ink p (Node.element name attrs cs).visibleText := by
  simp only [bind_outcome_eq_ok_iff] at hok
  obtain ⟨first, _, ls, hls, hok⟩ := hok
  obtain rfl := Except.ok.inj hok
  rw [hp.gauge.unlines, h _ _ _ _ hls, visibleText_of_element rfl (by simp [hrole])]
  rfl

section Siblings

variable {ns : List Node} (h : ∀ n ∈ ns, n.Throughout (Faithful p opts))
  (hplain : ∀ n ∈ ns, Plain n)
include h hplain

theorem ink_blocks {scope : Scope} {pending : List Node} {parts : List Text}
    (hpending : ∀ n ∈ pending, Plain n)
    (hok : (blocks opts scope keepAll pending ns).outcome = .ok parts) :
    parts.flatMap (Text.ink p) = Text.ink p (visibleTexts (pending ++ ns)) := by
  induction ns generalizing pending parts with
  | nil =>
    rw [blocks] at hok
    rw [List.append_nil]
    exact ink_run hp hpending hok
  | cons n ns ih =>
    rw [List.forall_mem_cons] at h hplain
    rw [blocks, keepAll, Bool.not_true, if_neg Bool.false_ne_true] at hok
    by_cases hb : n.isBlock = true
    · rw [if_pos hb] at hok
      simp only [bind_outcome_eq_ok_iff] at hok
      obtain ⟨before, hbefore, t, ht, rest, hrest, hok⟩ := hok
      rw [outcome_pure, Except.ok.injEq] at hok
      subst hok
      have hn := h.1.here.block hplain.1 hb scope t ht
      have hns := ih h.2 hplain.2 (List.forall_mem_nil _) hrest
      rw [List.nil_append] at hns
      rw [List.flatMap_append, List.flatMap_append, ink_run hp hpending hbefore, hp.gauge.flatMap_part, hn, hns,
        visibleTexts_append, visibleTexts, Text.ink_append, Text.ink_append, List.append_assoc]
    · rw [if_neg hb] at hok
      by_cases hs : isShown n = true
      · rw [if_pos hs] at hok
        have hpending' : ∀ m ∈ pending ++ [n], Plain m := by
          rw [List.forall_mem_append, List.forall_mem_singleton]
          exact ⟨hpending, hplain.1⟩
        have hns := ih h.2 hplain.2 hpending' hok
        rwa [List.append_assoc] at hns
      · rw [if_neg hs] at hok
        rw [ih h.2 hplain.2 hpending hok, visibleTexts_append, visibleTexts_append, visibleTexts,
          visibleText_of_not_isShown (Bool.eq_false_iff.mpr hs), List.nil_append]

theorem ink_segments {scope : Scope} {depth : Nat} {pending : List Node} {texts : List Text}
    (hpending : ∀ n ∈ pending, Plain n)
    (hok : Markdown.Rendered (segments opts scope depth pending ns) texts) :
    texts.flatMap (Text.ink p) = Text.ink p (visibleTexts (pending ++ ns)) := by
  induction ns generalizing pending texts with
  | nil =>
    rw [segments] at hok
    rw [List.append_nil]
    exact ink_runSegment hp hpending hok
  | cons n ns ih =>
    rw [List.forall_mem_cons] at h hplain
    -- The run before a block or list, the block or list itself, and the segments after it.
    have hparts : ∀ s, Markdown.Rendered
        (runSegment scope pending ++ s :: segments opts scope depth [] ns) texts →
          (∀ t, s.rendering.outcome = .ok t → Text.ink p t = Text.ink p n.visibleText) →
            texts.flatMap (Text.ink p) = Text.ink p (visibleTexts (pending ++ n :: ns)) := by
      intro s hs hn
      obtain ⟨before, after, hbefore, hafter, rfl⟩ := forall₂_append_left hs
      cases hafter with
      | cons ht hrest =>
        have hns := ih h.2 hplain.2 (List.forall_mem_nil _) hrest
        rw [List.nil_append] at hns
        rw [List.flatMap_append, List.flatMap_cons, ink_runSegment hp hpending hbefore, hn _ ht, hns,
          visibleTexts_append, visibleTexts, Text.ink_append, Text.ink_append]
    by_cases hb : n.isBlock = true
    · by_cases hl : ∃ ordered, n.role = .list ordered
      · obtain ⟨ordered, hrole⟩ := hl
        cases n with
        | element name attrs cs =>
          rw [segments_list hrole] at hok
          have hbelow := hplain.1.below (by simp [hrole])
          have hblank : cs.all isItemOrBlank = true := by
            simpa only [isProse, hrole, Node.children] using hplain.1.prose (by simp [hrole])
          exact hparts _ hok fun t ht =>
            ink_list hp hrole (h.1.here.items hbelow hblank) ht
        | text t => cases hrole
        | comment t => cases hrole
        | directive k t => cases hrole
      · rw [segments_block hb (not_exists.mp hl)] at hok
        exact hparts _ hok (h.1.here.block hplain.1 hb scope)
    · rw [segments_inline (Bool.eq_false_iff.mpr hb)] at hok
      have hpending' : ∀ m ∈ pending ++ [n], Plain m := by
        rw [List.forall_mem_append, List.forall_mem_singleton]
        exact ⟨hpending, hplain.1⟩
      have hns := ih h.2 hplain.2 hpending' hok
      rwa [List.append_assoc] at hns

theorem ink_items (hblank : ns.all isItemOrBlank = true) {scope : Scope} {depth : Nat}
    {due : Option Int} {ls : List Text} (hok : (items opts scope depth due ns).outcome = .ok ls) :
    ls.flatMap (Text.ink p) = Text.ink p (visibleTexts ns) := by
  induction ns generalizing due ls with
  | nil =>
    rw [items] at hok
    obtain rfl := Except.ok.inj hok
    rfl
  | cons n ns ih =>
    rw [List.forall_mem_cons] at h hplain
    rw [List.all_cons, Bool.and_eq_true] at hblank
    rw [visibleTexts, Text.ink_append]
    rcases items_cons hok with
      ⟨hli, number, marker, item, rest, -, hmarker, hitem, hrest, rfl⟩ | ⟨hli, hrest⟩
    · cases n with
      | element name attrs cs =>
        have hname : Text.lower name = "li".toList := hli
        have hphrase : (Node.element name attrs cs).role = .phrase := by
          rw [Node.role, hname]
          rfl
        obtain ⟨texts, htexts, hink⟩ := Markdown.ink_renderItem hp hitem
        have hcs := ink_segments hp (fun c hc => h.1.child hc)
          (hplain.1.below (by simp [hphrase])) (List.forall_mem_nil _) htexts
        rw [List.nil_append] at hcs
        rw [List.flatMap_cons, hink, ink_itemMarker hp hmarker, List.nil_append, hcs,
          ih h.2 hplain.2 hblank.2 hrest, visibleText_of_element rfl (by simp [hphrase])]
      | text t => exact absurd hli (not_item_of_no_tag rfl)
      | comment t => exact absurd hli (not_item_of_no_tag rfl)
      | directive k t => exact absurd hli (not_item_of_no_tag rfl)
    · -- Without an item the node shows nothing and is passed over.
      have hn := hblank.1
      rw [isItemOrBlank, Bool.or_eq_true, beq_iff_eq] at hn
      rw [hp.gauge.of_allBlank (hn.resolve_left hli), List.nil_append]
      exact ih h.2 hplain.2 hblank.2 hrest

end Siblings

omit hp in
/-- Without blocks inside, a container is rendered in a line: either way its text is kept. -/
theorem ink_fallback {content : Traced (List Text)} {inline : Traced Text} {t kept : Text}
    (hinline : ∀ line, inline.outcome = .ok line → Text.ink p line = kept)
    (hblocks : ∀ parts, content.outcome = .ok parts → Text.ink p (Text.joinBlocks parts) = kept)
    (hok : (content.bind fun parts => if Text.allBlank (Text.joinBlocks parts) then inline
      else Traced.pure (Text.joinBlocks parts)).outcome = .ok t) : Text.ink p t = kept := by
  rw [bind_outcome_eq_ok_iff] at hok
  obtain ⟨parts, hparts, hok⟩ := hok
  split at hok
  · exact hinline t hok
  · obtain rfl := Except.ok.inj hok
    exact hblocks parts hparts

theorem faithful (n : Node) : n.Throughout (Faithful p opts) := by
  refine Node.throughout (fun n h => ?_) n
  refine ⟨fun hplain hb scope t hok => ?_,
    fun hplain hblank _ _ _ _ hok => ink_items hp h hplain hblank hok⟩
  cases n with
  | text t => cases hb
  | comment t => cases hb
  | directive k t => cases hb
  | element name attrs cs =>
    have hi : (Node.element name attrs cs).role ≠ .ignored := by
      intro hrole
      rw [Node.isBlock, hrole] at hb
      cases hb
    have hbelow := hplain.below hi
    have hprose := hplain.prose hi
    have hinline : ∀ line, (Inline.render (name :: scope) cs).outcome = .ok line →
        Text.ink p line = Text.ink p (visibleTexts cs) := by
      intro line hline
      obtain rfl := Except.ok.inj hline
      exact Inline.ink_inline hp hbelow (name :: scope)
    have hblocks : ∀ parts, (blocks opts (name :: scope) keepAll [] cs).outcome = .ok parts →
        Text.ink p (Text.joinBlocks parts) = Text.ink p (visibleTexts cs) := by
      intro parts hparts
      rw [hp.gauge.joinBlocks]
      exact ink_blocks hp h hbelow (List.forall_mem_nil _) hparts
    rw [visibleText_of_element rfl hi]
    show _ = Text.ink p (visibleTexts cs)
    cases hrole : (Node.element name attrs cs).role with
    | heading level =>
      simp only [block, hrole, bind_outcome_eq_ok_iff] at hok
      obtain ⟨line, hline, hok⟩ := hok
      obtain rfl := Except.ok.inj hok
      exact (hp.ink_heading level _).trans (hinline line hline)
    | thematicBreak =>
      have hblank : Text.allBlank (visibleTexts cs) = true := by
        simpa only [isVoidBlank, hrole, Node.children] using hplain.voidBlank hi
      simp only [block, hrole] at hok
      obtain rfl := Except.ok.inj hok
      rw [hp.ink_thematicBreak, hp.gauge.of_allBlank hblank]
    | quote =>
      simp only [block, hrole] at hok
      split at hok
      · rw [bind_outcome_eq_ok_iff] at hok
        obtain ⟨parts, hparts, hok⟩ := hok
        obtain rfl := Except.ok.inj hok
        exact (hp.ink_quote _).trans (hblocks parts hparts)
      · rw [bind_outcome_eq_ok_iff] at hok
        obtain ⟨line, hline, hok⟩ := hok
        obtain rfl := Except.ok.inj hok
        exact (hp.ink_quote _).trans (hinline line hline)
    | list ordered =>
      have hblank : cs.all isItemOrBlank = true := by
        simpa only [isProse, hrole, Node.children] using hprose
      simp only [block, hrole] at hok
      have hlist := ink_list hp hrole (fun _ _ _ _ hok => ink_items hp h hbelow hblank hok) hok
      rwa [visibleText_of_element rfl hi] at hlist
    | figure =>
      have hcode : Figure.isCode (.element name attrs cs) = false := by
        simpa [isProse, hrole] using hprose
      have hnone : Figure.parts? ⟨[], scope, .element name attrs cs⟩ = none := by
        simp [Figure.parts?, hcode]
      simp only [block, hrole, hnone] at hok
      exact ink_fallback hinline hblocks hok
    | container =>
      simp only [block, hrole] at hok
      exact ink_fallback hinline hblocks hok
    | paragraph =>
      simp only [block, hrole] at hok
      exact hinline t hok
    | ignored => exact absurd hrole hi
    | table => simp [isProse, hrole] at hprose
    | definitions => simp [isProse, hrole] at hprose
    | preformatted => simp [isProse, hrole] at hprose
    | _ =>
      rw [Node.isBlock, hrole] at hb
      cases hb

end Render

/-! ## Documents -/

omit hp in
/-- Running text keeps its visible text: nothing is lost, doubled or put elsewhere. -/
theorem visible_text_kept (opts : Options) (ns : List Node) (t : Text)
    (hprose : Node.allShown Node.isProse ns = true)
    (hvoid : Node.allShown Node.isVoidBlank ns = true)
    (h : (convertTree opts ns).outcome = .ok t) :
    Text.ink isInk t = Text.ink isInk (Node.visibleTexts ns) := by
  rw [Node.allShown_iff] at hprose hvoid
  simp only [convertTree, Render.siblings, bind_outcome_eq_ok_iff] at h
  obtain ⟨joined, ⟨parts, hparts, hjoined⟩, h⟩ := h
  obtain rfl := Except.ok.inj hjoined
  obtain rfl := Except.ok.inj h
  have hink := Render.ink_blocks ink_isInk (fun n _ => Render.faithful ink_isInk n)
    (fun n hn => ⟨hprose n hn, hvoid n hn⟩) (List.forall_mem_nil _) hparts
  exact (ink_isInk.gauge.normalize _ _).trans ((ink_isInk.gauge.joinBlocks parts).trans hink)

omit hp in
theorem visible_text_kept_in_list :
    (convertTree Options.standard
      [.element "p".toList [] [.text "a < ".toList, .element "em".toList [] [.text "b".toList]],
        .element "ol".toList [] [.element "li".toList [] [.text "c".toList]]]).outcome =
      .ok "a &lt; *b*\n\n1. c".toList ∧
    Text.ink isInk "a &lt; *b*\n\n1. c".toList = Text.ink isInk (Node.visibleTexts
      [.element "p".toList [] [.text "a < ".toList, .element "em".toList [] [.text "b".toList]],
        .element "ol".toList [] [.element "li".toList [] [.text "c".toList]]]) :=
  ⟨rfl, visible_text_kept Options.standard _ _ (by decide) (by decide) rfl⟩

omit hp in
/-- A rule that was left open and so holds text shows none of it. -/
theorem filled_rule_loses_text :
    Node.allShown Node.isProse [.element "hr".toList [] [.text "abc".toList]] = true ∧
      (convertTree Options.standard [.element "hr".toList [] [.text "abc".toList]]).outcome =
        .ok "---".toList ∧
      Text.ink isInk "---".toList ≠
        Text.ink isInk (Node.visibleTexts [.element "hr".toList [] [.text "abc".toList]]) :=
  ⟨by decide, rfl, by decide⟩

end Hypermark
