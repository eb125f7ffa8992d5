import Hypermark.Convert
import Hypermark.Proofs.ItemNumbers
import Hypermark.Proofs.MarkedDocument

/-!
# Code inside other blocks

A code block may stand in containers, quotations and items of lists, one inside the other.  Each of
them changes the lines of what it holds in its own way, and writes lines of its own only above them.
So the lines of the block come through at the end of the document, all with the same margin.

The induction is on the containers, from the code outwards, with the lines that are shown so far.  A
list needs two statements: as a block it starts at the margin, in an item it is one level deeper and
is not indented again.

* `lineWithin`, `margin`: what the containers do to a line, exactly and up to trailing white space.
* `showsBlock_nest`: the lines that the code block is rendered as.
* `mem_reached_nest`: it is rendered wherever it stands, so only its own fence can fail.
* `shows_normalize`: the normalizer keeps them all.
* `code_kept_within`: both for whole conversions.
-/

namespace Hypermark

open Text Markdown Traced

/-! ## Containers -/

/-- The element only passes its blocks on: a container, or a figure that is not marked as code. -/
def IsTransparent (name : Text) (attrs : Attributes) : Prop :=
  (Node.element name attrs []).role = .container ∨
    (Node.element name attrs []).role = .figure ∧ Figure.isCode (.element name attrs []) = false

theorem IsTransparent.isBlock {name : Text} {attrs : Attributes} (h : IsTransparent name attrs)
    (cs : List Node) : (Node.element name attrs cs).isBlock = true := by
  have hrole : (Node.element name attrs cs).role = (Node.element name attrs []).role := rfl
  rcases h with h | ⟨h, -⟩
  · exact Node.isBlock_of_role (hrole.trans h) rfl
  · exact Node.isBlock_of_role (hrole.trans h) rfl

/-- An element around a single node: a container, a quotation, or a list with one item that holds the
node, where neither says a number. -/
inductive Layer where
  | container (name : Text) (attrs : Attributes) (h : IsTransparent name attrs)
  | quote (name : Text) (attrs : Attributes) (h : (Node.element name attrs []).role = .quote)
  | list (ordered : Bool) (name : Text) (attrs : Attributes) (item : Text) (itemAttrs : Attributes)
      (h : (Node.element name attrs []).role = .list ordered)
      (hstart : (Node.element name attrs []).attribute? "start".toList = none)
      (hitem : (Node.element item itemAttrs []).tag = "li".toList)
      (hvalue : (Node.element item itemAttrs []).attribute? "value".toList = none)

namespace Layer

def around : Layer → Node → Node
  | container name attrs _, n => .element name attrs [n]
  | quote name attrs _, n => .element name attrs [n]
  | list _ name attrs item itemAttrs _ _ _ _, n =>
    .element name attrs [.element item itemAttrs [n]]

/-- The scope of the node inside. -/
def scope : Layer → Scope → Scope
  | container name _ _, s => name :: s
  | quote name _ _, s => name :: s
  | list _ name _ item _ _ _ _ _, s => item :: name :: s

/-- What becomes of a line inside. -/
def line : Layer → Text → Text
  | container .., l => l
  | quote .., l => quoteLine l
  | list .., l => indentLine 0 l

/-- What stands before a line inside. -/
def margin : Layer → Text
  | container .. => []
  | quote .. => "> ".toList
  | list .. => "  ".toList

theorem isBlock_around (layer : Layer) (n : Node) : (layer.around n).isBlock = true := by
  cases layer with
  | container name attrs h => exact h.isBlock [n]
  | quote name attrs h =>
    have hrole : (around (quote name attrs h) n).role = .quote := h
    exact Node.isBlock_of_role hrole rfl
  | list ordered name attrs item itemAttrs h hstart hitem hvalue =>
    have hrole : (around (list ordered name attrs item itemAttrs h hstart hitem hvalue) n).role =
        .list ordered := h
    exact Node.isBlock_of_role hrole rfl

end Layer

/-- A node inside of several containers, the outermost first. -/
def nest (path : List Layer) (n : Node) : Node := path.foldr Layer.around n

def scopeWithin (path : List Layer) (scope : Scope) : Scope :=
  path.foldl (fun s layer => layer.scope s) scope

/-- What becomes of a line inside of several containers. -/
def lineWithin (path : List Layer) (l : Text) : Text := path.foldr Layer.line l

/-- What stands before a line inside of several containers: two spaces for each list and a mark with
a space for each quotation. -/
def margin (path : List Layer) : Text := path.flatMap Layer.margin

/-- The text is made of spaces and of quotation marks with a space. -/
def IsMargin (t : Text) : Prop :=
  ∃ pieces : List Text, t = pieces.flatten ∧ ∀ p ∈ pieces, p = " ".toList ∨ p = "> ".toList

theorem isMargin_margin (path : List Layer) : IsMargin (margin path) := by
  induction path with
  | nil => exact ⟨[], rfl, nofun⟩
  | cons layer path ih =>
    obtain ⟨pieces, hpieces, hmem⟩ := ih
    have hcons : margin (layer :: path) = layer.margin ++ pieces.flatten := by
      rw [← hpieces]
      rfl
    cases layer with
    | container => exact ⟨pieces, hcons, hmem⟩
    | quote => exact ⟨"> ".toList :: pieces, hcons, List.forall_mem_cons.mpr ⟨.inr rfl, hmem⟩⟩
    | list =>
      refine ⟨" ".toList :: " ".toList :: pieces, hcons, ?_⟩
      exact List.forall_mem_cons.mpr ⟨.inl rfl, List.forall_mem_cons.mpr ⟨.inl rfl, hmem⟩⟩

/-! ## Lines inside -/

section Lines

theorem trimEnd_append_trimEnd (s t : Text) : trimEnd (s ++ trimEnd t) = trimEnd (s ++ t) := by
  have hblank : allBlank (t.rtakeWhile isBlank) = true :=
    List.all_eq_true.mpr fun _ hc => List.mem_rtakeWhile_imp hc
  have hsplit : trimEnd t ++ t.rtakeWhile isBlank = t := List.rdropWhile_append_rtakeWhile
  conv => rhs; rw [← hsplit, ← List.append_assoc, trimEnd_append_blank _ hblank]

theorem Layer.trimEnd_line (layer : Layer) (l : Text) :
    trimEnd (layer.line l) = trimEnd (layer.margin ++ l) := by
  cases layer with
  | container => rfl
  | quote =>
    rw [line, margin, quoteLine]
    split
    · rename_i hblank
      have hrest : allBlank (' ' :: l) = true := hblank
      exact (trimEnd_append_blank ['>'] hrest).symm
    · rfl
  | list =>
    rw [line, margin, indentLine]
    split
    · rename_i hblank
      have hall : allBlank (' ' :: ' ' :: l) = true := hblank
      exact (trimEnd_append_blank [] hall).symm
    · rfl

/-- Up to white space at its end, a line inside is the line after the margin. -/
theorem trimEnd_lineWithin (path : List Layer) (l : Text) :
    trimEnd (lineWithin path l) = trimEnd (margin path ++ l) := by
  induction path with
  | nil => rfl
  | cons layer path ih =>
    calc trimEnd (layer.line (lineWithin path l))
        = trimEnd (layer.margin ++ trimEnd (lineWithin path l)) := by
          rw [layer.trimEnd_line, trimEnd_append_trimEnd]
      _ = trimEnd (margin (layer :: path) ++ l) := by
          rw [ih, trimEnd_append_trimEnd, ← List.append_assoc]
          rfl

theorem indentLine_of_blank {l : Text} (h : allBlank l = true) (depth : Nat) :
    indentLine depth l = [] := if_pos h

theorem indentLine_of_not_blank {l : Text} (h : allBlank l = false) (depth : Nat) :
    indentLine depth l = indent (depth + 1) ++ l := if_neg (by rw [h]; exact Bool.false_ne_true)

/-- Indenting for a list at the margin and then for one at `depth` is indenting for one level more. -/
theorem indentLine_indentLine (depth : Nat) (l : Text) :
    indentLine depth (indentLine 0 l) = indentLine (depth + 1) l := by
  by_cases hblank : allBlank l = true
  · rw [indentLine_of_blank hblank, indentLine_of_blank hblank]
    rfl
  · rw [Bool.not_eq_true] at hblank
    have hinner : allBlank (indent 1 ++ l) = false :=
      not_allBlank_of_infix hblank (List.suffix_append _ l).isInfix
    have hindent : indent (depth + 1 + 1) = indent (depth + 1) ++ indent 1 := by
      rw [indent, indent, indent, List.replicate_append_replicate]
      rfl
    rw [indentLine_of_not_blank hblank, indentLine_of_not_blank hinner, indentLine_of_not_blank hblank,
      hindent, List.append_assoc]

theorem readsAlike_indentLine (depth : Nat) : ReadsAlike (indentLine depth) := by
  have hstart : ∀ l, trimStart (indentLine depth l) = trimStart l := by
    intro l
    rw [indentLine]
    split
    · rename_i hblank
      exact ((dropWhile_eq_nil_iff isBlank l).mpr hblank).symm
    · exact trimStart_indent_append ..
  refine ⟨fun l => ?_, fun f l => closedBy_congr ?_ f, fun l => ?_⟩
  · rw [Fence.opening?, Fence.opening?, hstart]
  · rw [trim, trim, hstart]
  · rw [Bool.eq_iff_iff, ← trim_eq_nil_iff, ← trim_eq_nil_iff, trim, trim, hstart]

/-- The line belongs to a quotation, which stands in nothing but lists. -/
def IsQuoted (l : Text) : Prop := (trimStart l).head? = some '>'

theorem isQuoted_quoteLine (l : Text) : IsQuoted (quoteLine l) := by
  rw [IsQuoted, quoteLine]
  split <;> rfl

theorem IsQuoted.not_blank {l : Text} (h : IsQuoted l) : allBlank l = false := by
  rw [← Bool.not_eq_true]
  intro hblank
  rw [IsQuoted, show trimStart l = [] from (dropWhile_eq_nil_iff isBlank l).mpr hblank] at h
  cases h

theorem IsQuoted.indentLine {l : Text} (h : IsQuoted l) (depth : Nat) :
    IsQuoted (indentLine depth l) := by
  rw [indentLine_of_not_blank h.not_blank, IsQuoted, trimStart_indent_append]
  exact h

theorem IsQuoted.opening? {l : Text} (h : IsQuoted l) : Fence.opening? l = none := by
  rw [IsQuoted] at h
  rw [Fence.opening?]
  cases hstart : trimStart l with
  | nil => rfl
  | cons c cs =>
    rw [hstart] at h
    obtain rfl := Option.some.inj h
    rfl

/-- Without a quotation around them the lines are read as they were, with one none of them is code
for the normalizer. -/
theorem isQuoted_or_readsAlike (path : List Layer) :
    (∀ l, IsQuoted (lineWithin path l)) ∨ ReadsAlike (lineWithin path) := by
  induction path with
  | nil => exact .inr .id
  | cons layer path ih =>
    cases layer with
    | container => exact ih
    | quote => exact .inl fun l => isQuoted_quoteLine _
    | list => exact ih.imp (fun h l => (h l).indentLine 0) (readsAlike_indentLine 0).comp

theorem not_allBlank_lineWithin (path : List Layer) {l : Text} (h : allBlank l = false) :
    allBlank (lineWithin path l) = false := by
  rcases isQuoted_or_readsAlike path with hquoted | halike
  · exact (hquoted l).not_blank
  · rw [halike.blank, h]

end Lines

/-! ## What is shown -/

/-- The line has neither a mark of a fence nor a carriage return. -/
def IsPlain (l : Text) : Prop := ∀ c ∈ l, Fence.isMark c = false ∧ c ≠ '\r'

theorem IsPlain.quoteLine {l : Text} (h : IsPlain l) : IsPlain (quoteLine l) := by
  rw [Markdown.quoteLine]
  split
  · exact (List.forall_mem_singleton ..).mpr (by decide)
  · exact List.forall_mem_cons.mpr ⟨by decide, List.forall_mem_cons.mpr ⟨by decide, h⟩⟩

theorem isPlain_indent (depth : Nat) : IsPlain (indent depth) := by
  intro c hc
  rw [List.eq_of_mem_replicate hc]
  decide

theorem IsPlain.indentLine {l : Text} (h : IsPlain l) (depth : Nat) :
    IsPlain (indentLine depth l) := by
  rw [Markdown.indentLine]
  split
  · exact fun c hc => absurd hc List.not_mem_nil
  · exact List.forall_mem_append.mpr ⟨isPlain_indent _, h⟩

theorem IsPlain.opening? {l : Text} (h : IsPlain l) : Fence.opening? l = none := by
  rw [Fence.opening?]
  split
  · rfl
  · rename_i c cs hstart
    have hc : c ∈ trimStart l := by rw [hstart]; exact List.mem_cons_self ..
    have hmark := (h c ((List.dropWhile_sublist _).subset hc)).1
    simp only [hmark, Bool.false_and, Bool.false_eq_true, if_false]

/-- The lines end with those of a block as `g` changes them, and those above are plain. -/
def Shows (g : Text → Text) (block ls : List Text) : Prop :=
  ∃ above, ls = above ++ block.map g ∧ ∀ l ∈ above, IsPlain l

section Shows

variable {g g' : Text → Text} {block ls : List Text} {t : Text}

theorem shows_self (block : List Text) : Shows id block block :=
  ⟨[], by rw [List.map_id, List.nil_append], nofun⟩

theorem Shows.map (h : Shows g block ls) (hplain : ∀ l, IsPlain l → IsPlain (g' l)) :
    Shows (g' ∘ g) block (ls.map g') := by
  obtain ⟨above, rfl, habove⟩ := h
  refine ⟨above.map g', by rw [List.map_append, List.map_map], ?_⟩
  exact List.forall_mem_map.mpr fun l hl => hplain l (habove l hl)

theorem Shows.below (h : Shows g block ls) {above : List Text} (habove : ∀ l ∈ above, IsPlain l) :
    Shows g block (above ++ ls) := by
  obtain ⟨above', rfl, habove'⟩ := h
  exact ⟨above ++ above', (List.append_assoc ..).symm, List.forall_mem_append.mpr ⟨habove, habove'⟩⟩

/-- A text that shows a block is not blank and no single line. -/
theorem Shows.feed (h : Shows g block (lines t)) (hlength : 2 ≤ block.length) :
    '\n' ∈ t := by
  by_contra hfeed
  obtain ⟨above, hlines, _⟩ := h
  rw [lines_of_no_feed hfeed] at hlines
  have hcount := congrArg List.length hlines
  rw [List.length_append, List.length_map, List.length_singleton] at hcount
  omega

theorem Shows.not_blank (h : Shows g block (lines t)) {l : Text} (hl : l ∈ block)
    (hblank : allBlank (g l) = false) : allBlank t = false := by
  obtain ⟨above, hlines, _⟩ := h
  have hmem : g l ∈ lines t := by
    rw [hlines]
    exact List.mem_append_right _ (List.mem_map_of_mem hl)
  have hpiece := infix_of_mem_lines hmem
  rw [← Bool.not_eq_true] at hblank ⊢
  exact fun h => hblank (List.all_eq_true.mpr fun c hc => List.all_eq_true.mp h c (hpiece.subset hc))

end Shows

/-! ## Rendering -/

namespace Render

variable {opts : Options} {scope : Scope} {n : Node} {t : Text}

theorem blocks_single (hblock : n.isBlock = true) (h : (block opts scope n).outcome = .ok t)
    (hblank : allBlank t = false) :
    (blocks opts scope (fun _ => true) [] [n]).outcome = .ok [t] := by
  have hrun : (run scope []).outcome = .ok [] := rfl
  have hpart : part t = [t] := if_neg (by rw [hblank]; exact Bool.false_ne_true)
  rw [blocks, if_neg (by decide), if_pos hblock, bind_outcome_of_ok hrun, bind_outcome_of_ok h,
    blocks_nil, bind_outcome_of_ok hrun, hpart]
  rfl

/-- A container shows what its children show as siblings, or a line if that is blank. -/
theorem block_of_transparent {name : Text} {attrs : Attributes}
    (htransparent : IsTransparent name attrs) (scope : Scope) (cs : List Node) :
    block opts scope (.element name attrs cs) = (siblings opts (name :: scope) cs).bind fun t =>
      if allBlank t then Inline.render (name :: scope) cs else Traced.pure t := by
  rw [siblings, bind_assoc]
  rcases htransparent with hrole | ⟨hrole, hcode⟩
  · have hrole' : (Node.element name attrs cs).role = .container := hrole
    rw [block]
    simp only [hrole']
    rfl
  · have hrole' : (Node.element name attrs cs).role = .figure := hrole
    have hparts : Figure.parts? ⟨[], scope, .element name attrs cs⟩ = none :=
      if_neg (by rw [show Figure.isCode (.element name attrs cs) = false from hcode];
                 exact Bool.false_ne_true)
    rw [block]
    simp only [hrole', hparts]
    rfl

theorem block_transparent {name : Text} {attrs : Attributes} (htransparent : IsTransparent name attrs)
    (hblock : n.isBlock = true) (h : (block opts (name :: scope) n).outcome = .ok t)
    (hblank : allBlank t = false) :
    (block opts scope (.element name attrs [n])).outcome = .ok t := by
  have hjoin : joinBlocks [t] = t := List.intercalate_singleton
  have hsiblings : (siblings opts (name :: scope) [n]).outcome = .ok t := by
    rw [siblings, bind_outcome_of_ok (blocks_single hblock h hblank), Function.comp, hjoin]
    rfl
  rw [block_of_transparent htransparent, bind_outcome_of_ok hsiblings,
    if_neg (by rw [hblank]; exact Bool.false_ne_true)]
  rfl

theorem block_quote {name : Text} {attrs : Attributes}
    (hrole : (Node.element name attrs []).role = .quote) (hblock : n.isBlock = true)
    (h : (block opts (name :: scope) n).outcome = .ok t) (hblank : allBlank t = false) :
    (block opts scope (.element name attrs [n])).outcome =
      .ok (unlines ((lines t).map quoteLine)) := by
  have hrole' : (Node.element name attrs [n]).role = .quote := hrole
  have hany : [n].any Node.isBlock = true := by rw [List.any_cons, hblock, Bool.true_or]
  have hjoin : joinBlocks [t] = t := List.intercalate_singleton
  rw [block]
  simp only [hrole', hany, if_true]
  rw [bind_outcome_of_ok (blocks_single hblock h hblank), Function.comp, Function.comp, hjoin, quote,
    if_neg (by rw [hblank]; exact Bool.false_ne_true)]
  rfl

theorem lines_quoted (t : Text) :
    lines (unlines ((lines t).map quoteLine)) = (lines t).map quoteLine := by
  have hne : (lines t).map quoteLine ≠ [] := by
    rw [ne_eq, List.map_eq_nil_iff]
    exact List.splitOn_ne_nil '\n' t
  refine lines_unlines hne (List.forall_mem_map.mpr fun l hl => ?_)
  exact not_mem_quoteLine (by decide) (by decide) (no_feed_of_mem_lines hl)

/-! ### Items -/

/-- The lines of an item with nothing on its marker line and one segment below. -/
theorem lines_itemText {depth : Nat} {marker : Text} (hmarker : '\n' ∉ marker)
    {kind : SegmentKind} (hlines : segmentLines depth kind t ≠ []) :
    ∃ gap, lines (itemText depth marker [] [(kind, t)]) =
        (trimEnd marker :: gap) ++ segmentLines depth kind t ∧ ∀ l ∈ gap, l = [] := by
  have hline : markerLine marker [] = trimEnd marker := rfl
  have htrimmed : '\n' ∉ trimEnd marker := fun h => hmarker ((List.rdropWhile_prefix _ _).subset h)
  obtain ⟨gap, hgap, hempty⟩ : ∃ gap : List Text,
      addSegments depth [trimEnd marker] none [(kind, t)] =
        (trimEnd marker :: gap) ++ segmentLines depth kind t ∧ ∀ l ∈ gap, l = [] := by
    rw [addSegments]
    cases hsegment : segmentLines depth kind t with
    | nil => exact absurd hsegment hlines
    | cons l ls =>
      refine ⟨_, rfl, fun k hk => ?_⟩
      split at hk
      · exact List.mem_singleton.mp hk
      · cases hk
  refine ⟨gap, ?_, hempty⟩
  rw [itemText, hline, hgap]
  refine lines_unlines (List.cons_ne_nil _ _) ?_
  refine List.forall_mem_append.mpr ⟨List.forall_mem_cons.mpr ⟨htrimmed, fun l hl => ?_⟩,
    fun l hl => no_feed_of_mem_segmentLines hl⟩
  rw [hempty l hl]
  exact List.not_mem_nil

/-- A segment of several lines leaves the marker line empty. -/
theorem renderItem_single {depth : Nat} {marker : Text} {s : Segment} (hkind : s.kind ≠ .inline)
    (h : s.rendering.outcome = .ok t) (hfeed : '\n' ∈ t) :
    (renderItem depth marker [s]).outcome = .ok (itemText depth marker [] [(s.kind, t)]) := by
  cases hk : s.kind with
  | inline => exact absurd hk hkind
  | nestedList =>
    have htexts : (Traced.sequence [s.rendering]).outcome = .ok [t] := by
      rw [Traced.sequence, bind_outcome_of_ok h]
      rfl
    rw [renderItem, leading_of_nestedList hk, Traced.pure_bind]
    refine bind_outcome_eq_ok_iff.mpr ⟨[t], htexts, ?_⟩
    simp only [List.map_singleton, hk]
    rfl
  | block =>
    have hcontains : t.contains '\n' = true := List.contains_iff_mem.mpr hfeed
    have hleading : (leading [s]).outcome = .ok ⟨[], some t, []⟩ := by
      rw [leading, hk]
      simp only
      rw [bind_outcome_of_ok h, if_pos hcontains]
      rfl
    rw [renderItem, bind_outcome_of_ok hleading]
    rfl

/-- The number of the only item of a list that says no number, none in a list of bullets. -/
def onlyNumber (ordered : Bool) : Option Int := if ordered then some 1 else none

def onlyMarker (depth : Nat) (ordered : Bool) : Text :=
  indent depth ++ label (onlyNumber ordered) ++ [' ']

theorem no_feed_onlyMarker (depth : Nat) (ordered : Bool) : '\n' ∉ onlyMarker depth ordered :=
  fun h => (List.mem_append.mp h).elim (no_feed_label depth _) fun h =>
    absurd (List.mem_singleton.mp h) (by decide)

theorem isPlain_onlyMarker (depth : Nat) (ordered : Bool) : IsPlain (onlyMarker depth ordered) := by
  have hspace : IsPlain [' '] := (List.forall_mem_singleton ..).mpr (by decide)
  refine List.forall_mem_append.mpr
    ⟨List.forall_mem_append.mpr ⟨isPlain_indent depth, ?_⟩, hspace⟩
  cases ordered with
  | true =>
    have hlabel : label (onlyNumber true) = ['1', '.'] := rfl
    rw [hlabel]
    exact List.forall_mem_cons.mpr ⟨by decide, (List.forall_mem_singleton ..).mpr (by decide)⟩
  | false =>
    have hlabel : label (onlyNumber false) = ['-'] := rfl
    rw [hlabel]
    exact (List.forall_mem_singleton ..).mpr (by decide)

theorem itemMarker_only (depth : Nat) (ordered : Bool) :
    itemMarker depth (onlyNumber ordered) = .ok (onlyMarker depth ordered) := by
  obtain ⟨marker, hmarker⟩ : ∃ marker, itemMarker depth (onlyNumber ordered) = .ok marker := by
    cases ordered with
    | true => exact ⟨numberMarker depth "1".toList, rfl⟩
    | false => exact ⟨_, rfl⟩
  rw [hmarker, itemMarker_eq hmarker, onlyMarker]

section Lists

variable {name item : Text} {attrs itemAttrs : Attributes} {ordered : Bool} {depth : Nat}

theorem items_single (hitem : (Node.element item itemAttrs []).tag = "li".toList)
    (hvalue : (Node.element item itemAttrs []).attribute? "value".toList = none)
    (h : (renderItem depth (onlyMarker depth ordered)
      (segments opts (item :: scope) depth [] [n])).outcome = .ok t) :
    (items opts scope depth (onlyNumber ordered) [.element item itemAttrs [n]]).outcome =
      .ok [t] := by
  have htag : Text.lower item = "li".toList := hitem
  have hown : itemNumber (onlyNumber ordered) (.element item itemAttrs [n]) =
      .ok (onlyNumber ordered) := by
    have hvalue' : (Node.element item itemAttrs [n]).attribute? "value".toList = none := hvalue
    cases ordered with
    | true =>
      rw [show onlyNumber true = some 1 from rfl, itemNumber, hvalue']
      rfl
    | false => rfl
  rw [items, if_pos htag]
  refine bind_outcome_eq_ok_iff.mpr ⟨onlyNumber ordered, by rw [hown]; rfl, ?_⟩
  refine bind_outcome_eq_ok_iff.mpr ⟨onlyMarker depth ordered, by rw [itemMarker_only]; rfl, ?_⟩
  rw [bind_outcome_of_ok h, items]
  rfl

/-- A list with one item is what the item comes to. -/
theorem list_single (hrole : (Node.element name attrs []).role = .list ordered)
    (hstart : (Node.element name attrs []).attribute? "start".toList = none)
    (h : (items opts (name :: scope) depth (onlyNumber ordered)
      [.element item itemAttrs [n]]).outcome = .ok [t]) :
    (list opts scope depth (.element name attrs [.element item itemAttrs [n]])).outcome = .ok t := by
  have hordered := ordered_eq (n := .element name attrs [.element item itemAttrs [n]]) hrole
  have hnumber : firstNumber ordered (.element name attrs [.element item itemAttrs [n]]) =
      .ok (onlyNumber ordered) := by
    have hstart' : (Node.element name attrs [.element item itemAttrs [n]]).attribute?
        "start".toList = none := hstart
    rw [firstNumber, hstart']
    cases ordered with
    | true => rfl
    | false => rfl
  have hunlines : unlines [t] = t := List.intercalate_singleton
  rw [list, hordered, hnumber]
  refine bind_outcome_eq_ok_iff.mpr ⟨onlyNumber ordered, rfl, ?_⟩
  rw [bind_outcome_of_ok h, Function.comp, hunlines]
  rfl

/-- As all that an item of a list at a depth holds, the node makes one segment, whose lines show the
block. -/
def ItemShows (opts : Options) (scope : Scope) (depth : Nat) (g : Text → Text) (block : List Text)
    (n : Node) : Prop :=
  ∃ s t, segments opts scope depth [] [n] = [s] ∧ s.kind ≠ .inline ∧ s.rendering.outcome = .ok t ∧
    '\n' ∈ t ∧ Shows (indentLine depth ∘ g) block (segmentLines depth s.kind t)

theorem ItemShows.list {g : Text → Text} {block : List Text}
    (h : ItemShows opts (item :: name :: scope) depth g block n) (hblock : block ≠ [])
    (hrole : (Node.element name attrs []).role = .list ordered)
    (hstart : (Node.element name attrs []).attribute? "start".toList = none)
    (hitem : (Node.element item itemAttrs []).tag = "li".toList)
    (hvalue : (Node.element item itemAttrs []).attribute? "value".toList = none) :
    ∃ t, (Render.list opts scope depth (.element name attrs [.element item itemAttrs [n]])).outcome =
        .ok t ∧ Shows (indentLine depth ∘ g) block (lines t) := by
  obtain ⟨s, t, hsegments, hkind, hrendering, hfeed, hshows⟩ := h
  have hsegmentLines : segmentLines depth s.kind t ≠ [] := by
    obtain ⟨above, hlines, _⟩ := hshows
    rw [hlines]
    exact List.append_ne_nil_of_right_ne_nil above (by simpa using hblock)
  obtain ⟨gap, hlines, hgap⟩ := lines_itemText (no_feed_onlyMarker depth ordered) hsegmentLines
  have hitemText : (renderItem depth (onlyMarker depth ordered)
      (segments opts (item :: name :: scope) depth [] [n])).outcome =
        .ok (itemText depth (onlyMarker depth ordered) [] [(s.kind, t)]) := by
    rw [hsegments]
    exact renderItem_single hkind hrendering hfeed
  refine ⟨_, list_single hrole hstart (items_single hitem hvalue hitemText), ?_⟩
  · rw [hlines]
    refine hshows.below (List.forall_mem_cons.mpr ⟨fun c hc => ?_, fun l hl => ?_⟩)
    · exact isPlain_onlyMarker depth ordered c ((List.rdropWhile_prefix _ _).subset hc)
    · rw [hgap l hl]
      exact nofun

theorem ItemShows.of_block {g : Text → Text} {block : List Text} (hblock : n.isBlock = true)
    (hlist : ∀ ordered, n.role ≠ .list ordered)
    (h : (Render.block opts scope n).outcome = .ok t) (hfeed : '\n' ∈ t)
    (hblank : allBlank t = false) (hshows : Shows g block (lines t)) :
    ItemShows opts scope depth g block n := by
  refine ⟨_, t, segments_block hblock hlist [], by simp, h, hfeed, ?_⟩
  have hlines : segmentLines depth .block t = (lines t).map (indentLine depth) := by
    rw [segmentLines, if_neg (by rw [hblank]; exact Bool.false_ne_true)]
    exact fun hkind => SegmentKind.noConfusion hkind
  rw [hlines]
  exact hshows.map fun l hl => hl.indentLine depth

theorem ItemShows.of_list {g : Text → Text} {block : List Text}
    (hrole : (Node.element name attrs []).role = .list ordered)
    (h : (Render.list opts scope (depth + 1) (.element name attrs [n])).outcome = .ok t)
    (hfeed : '\n' ∈ t) (hshows : Shows (indentLine (depth + 1) ∘ g) block (lines t)) :
    ItemShows opts scope depth (indentLine 0 ∘ g) block (.element name attrs [n]) := by
  have hrole' : (Node.element name attrs [n]).role = .list ordered := hrole
  have hordered := ordered_eq hrole'
  refine ⟨_, t, segments_list hrole' [], by simp, ?_, hfeed, ?_⟩
  · rw [Render.list, hordered] at h
    exact h
  · have hlines : segmentLines depth .nestedList t = lines t := by
      rw [segmentLines, if_neg]
      rw [List.isEmpty_iff]
      exact List.ne_nil_of_mem hfeed
    have hdeeper : indentLine (depth + 1) ∘ g = indentLine depth ∘ indentLine 0 ∘ g :=
      funext fun l => (indentLine_indentLine depth (g l)).symm
    rw [hlines, ← hdeeper]
    exact hshows

end Lists

/-! ### All containers -/

/-- What the induction carries: the lines of the node as a block, and as the content of an item. -/
structure ShowsBlock (opts : Options) (scope : Scope) (g : Text → Text) (block : List Text)
    (n : Node) : Prop where
  asBlock : ∃ t, (Render.block opts scope n).outcome = .ok t ∧ Shows g block (lines t)
  inItem (depth : Nat) : ItemShows opts scope depth g block n

section Layers

variable {g : Text → Text} {block : List Text} {l : Text}

theorem showsBlock_of_block (hlength : 2 ≤ block.length) (hl : l ∈ block)
    (hblank : allBlank (g l) = false) (hblock : n.isBlock = true)
    (hlist : ∀ ordered, n.role ≠ .list ordered)
    (h : (Render.block opts scope n).outcome = .ok t) (hshows : Shows g block (lines t)) :
    ShowsBlock opts scope g block n :=
  ⟨⟨t, h, hshows⟩, fun _ =>
    .of_block hblock hlist h (hshows.feed hlength) (hshows.not_blank hl hblank) hshows⟩

theorem isBlock_nest (path : List Layer) (hblock : n.isBlock = true) :
    (nest path n).isBlock = true := by
  cases path with
  | nil => exact hblock
  | cons layer path => exact layer.isBlock_around _

/-- One more container around what is shown. -/
theorem ShowsBlock.around (hlength : 2 ≤ block.length) (hl : l ∈ block) (hblank : allBlank l = false)
    (hblock : n.isBlock = true) (layer : Layer) (path : List Layer)
    (h : ShowsBlock opts (layer.scope scope) (lineWithin path) block (nest path n)) :
    ShowsBlock opts scope (lineWithin (layer :: path)) block (nest (layer :: path) n) := by
  have hinside : ∀ t, Shows (lineWithin path) block (lines t) → allBlank t = false :=
    fun t ht => ht.not_blank hl (not_allBlank_lineWithin path hblank)
  have houtside := not_allBlank_lineWithin (layer :: path) hblank
  have hnest := isBlock_nest path hblock
  have hnest' := isBlock_nest (layer :: path) hblock
  cases layer with
  | container name attrs htransparent =>
    obtain ⟨t, ht, hshows⟩ := h.asBlock
    refine showsBlock_of_block hlength hl houtside hnest' (fun ordered hrole => ?_)
      (block_transparent htransparent hnest ht (hinside t hshows)) hshows
    have hrole' : (Node.element name attrs []).role = .list ordered := hrole
    rcases htransparent with hcontainer | ⟨hfigure, _⟩
    · rw [hcontainer] at hrole'
      cases hrole'
    · rw [hfigure] at hrole'
      cases hrole'
  | quote name attrs hquote =>
    obtain ⟨t, ht, hshows⟩ := h.asBlock
    refine showsBlock_of_block hlength hl houtside hnest' (fun ordered hrole => ?_)
      (block_quote hquote hnest ht (hinside t hshows)) ?_
    · have hrole' : (Node.element name attrs []).role = .list ordered := hrole
      rw [hquote] at hrole'
      cases hrole'
    · rw [lines_quoted]
      exact hshows.map fun _ => IsPlain.quoteLine
  | list ordered name attrs item itemAttrs hrole hstart hitem hvalue =>
    have hne : block ≠ [] := List.ne_nil_of_length_pos (by omega)
    have hlist := fun depth => (h.inItem depth).list hne hrole hstart hitem hvalue
    refine ⟨?_, fun depth => ?_⟩
    · obtain ⟨t, ht, hshows⟩ := hlist 0
      let node : Node := .element name attrs [.element item itemAttrs [nest path n]]
      have heq : Render.block opts scope node = list opts scope 0 node := block_of_list hrole
      exact ⟨t, (congrArg outcome heq).trans ht, hshows⟩
    · obtain ⟨t, ht, hshows⟩ := hlist (depth + 1)
      exact .of_list hrole ht (hshows.feed hlength) hshows

/-- A code block inside of several containers, by induction on these. -/
theorem showsBlock_nest (hlength : 2 ≤ block.length) (hl : l ∈ block) (hblank : allBlank l = false)
    (hblock : n.isBlock = true) (path : List Layer)
    (h : ShowsBlock opts (scopeWithin path scope) id block n) :
    ShowsBlock opts scope (lineWithin path) block (nest path n) := by
  induction path generalizing scope with
  | nil => exact h
  | cons layer path ih => exact .around hlength hl hblank hblock layer path (ih h)

/-- What is rendered in a node still is with one more container around it. -/
theorem reached_subset_around (layer : Layer) (scope : Scope) (hblock : n.isBlock = true) :
    reached (layer.scope scope) n ⊆ reached scope (layer.around n) := by
  have hamong : ∀ s, reached s n ⊆ reachedAmong s keepAll [n] := fun s =>
    reached_subset_reachedAmong s (List.mem_singleton_self n) hblock
  cases layer with
  | container name attrs htransparent =>
    intro p hp
    rw [Layer.around, reached]
    refine List.mem_cons_of_mem _ ?_
    rcases htransparent with hcontainer | ⟨hfigure, hcode⟩
    · have hrole : (Node.element name attrs [n]).role = .container := hcontainer
      simpa only [hrole] using hamong (name :: scope) hp
    · have hrole : (Node.element name attrs [n]).role = .figure := hfigure
      have hparts : Figure.parts? ⟨[], scope, .element name attrs [n]⟩ = none :=
        if_neg (Bool.eq_false_iff.mp hcode)
      simpa only [hrole, hparts] using hamong (name :: scope) hp
  | quote name attrs hquote =>
    intro p hp
    have hrole : (Node.element name attrs [n]).role = .quote := hquote
    rw [Layer.around, reached]
    refine List.mem_cons_of_mem _ ?_
    simpa only [hrole] using hamong (name :: scope) hp
  | list ordered name attrs item itemAttrs hlist hstart hitem hvalue =>
    intro p hp
    have hrole : (Node.element name attrs [.element item itemAttrs [n]]).role = .list ordered := hlist
    have hitem' : Text.lower item = "li".toList := hitem
    rw [Layer.around, reached]
    refine List.mem_cons_of_mem _ ?_
    simp only [hrole, reachedInItems, hitem', if_true, List.append_nil]
    exact hamong _ hp

theorem mem_reached_nest (path : List Layer) (scope : Scope) (hblock : n.isBlock = true) :
    ⟨[], scopeWithin path scope, n⟩ ∈ reached scope (nest path n) := by
  induction path generalizing scope with
  | nil => exact mem_reached_self scope hblock
  | cons layer path ih => exact reached_subset_around layer scope (isBlock_nest path hblock) (ih _)

end Layers

end Render

/-! ## The normal form -/

/-- Squeezing keeps the lines of a fenced block inside of any containers. -/
theorem Markdown.Fenced.squeezeFrom_within {n : Nat} {info block : Text} {code : List Text}
    (h : Fenced n info code block) (path : List Layer) (most count : Nat) :
    squeezeFrom most none count ((lines block).map (lineWithin path)) =
      (lines block).map (lineWithin path) := by
  rcases isQuoted_or_readsAlike path with hquoted | halike
  · refine squeezeFrom_prose most (List.forall_mem_map.mpr fun l _ => ?_) count
    exact ⟨(hquoted l).not_blank, (hquoted l).opening?⟩
  · rw [halike.squeezeFrom_map, h.squeezeFrom_lines]

theorem no_return_lineWithin (path : List Layer) {l : Text} (h : '\r' ∉ l) :
    '\r' ∉ lineWithin path l := by
  induction path with
  | nil => exact h
  | cons layer path ih =>
    cases layer with
    | container => exact ih
    | quote => exact not_mem_quoteLine (by decide) (by decide) ih
    | list => exact not_mem_indentLine (by decide) 0 ih

theorem Shows.no_return {path : List Layer} {block t : Text}
    (h : Shows (lineWithin path) (lines block) (lines t)) (hblock : '\r' ∉ block) : '\r' ∉ t := by
  obtain ⟨above, hlines, habove⟩ := h
  refine not_mem_of_lines (by decide) ?_
  rw [hlines, List.forall_mem_append, List.forall_mem_map]
  refine ⟨fun l hl hmem => (habove l hl _ hmem).2 rfl, fun l hl => ?_⟩
  exact no_return_lineWithin path fun hmem => hblock ((infix_of_mem_lines hl).subset hmem)

theorem dropWhile_append_of_self {α : Type} {q : α → Bool} (xs : List α) {ys : List α}
    (h : ys.dropWhile q = ys) : (xs ++ ys).dropWhile q = xs.dropWhile q ++ ys := by
  rw [List.dropWhile_append, h]
  split
  · rename_i hempty
    rw [List.isEmpty_iff.mp hempty, List.nil_append]
  · rfl

/-- The normal form ends with the block, since the first and the last of its lines have text. -/
theorem shows_normalize {n : Nat} {info block t : Text} {code : List Text} {path : List Layer}
    (hfenced : Fenced n info code block) (hreturn : '\r' ∉ block)
    (h : Shows (lineWithin path) (lines block) (lines t)) (most : Nat) :
    ∃ above, lines (Markdown.normalize most t) =
      above ++ (lines block).map (trimLine ∘ lineWithin path) := by
  have hunified : unifyBreaks t = t := unifyBreaks_of_no_return (h.no_return hreturn)
  obtain ⟨above, hlines, habove⟩ := h
  obtain ⟨kept, count, hkept⟩ := squeezeFrom_outside most (fun l hl => (habove l hl).opening?) 0
    ((lines block).map (lineWithin path))
  rw [hfenced.squeezeFrom_within] at hkept
  have hsqueezed : squeezeFrom most none 0 ((lines (unifyBreaks t)).map trimLine) =
      kept.map trimLine ++ (lines block).map (trimLine ∘ lineWithin path) := by
    rw [hunified, readsAlike_trimLine.squeezeFrom_map, hlines, hkept, List.map_append, List.map_map]
  have hshown : ∀ l, allBlank l = false → (trimLine (lineWithin path l)).isEmpty = false := by
    intro l hl
    have hline := not_allBlank_lineWithin path hl
    rw [← readsAlike_trimLine.blank] at hline
    rw [List.isEmpty_eq_false_iff]
    intro hnil
    rw [hnil] at hline
    cases hline
  have hfirst : ((lines block).map (trimLine ∘ lineWithin path)).dropWhile List.isEmpty =
      (lines block).map (trimLine ∘ lineWithin path) := by
    rw [hfenced.lines_eq, List.map_cons]
    exact List.dropWhile_cons_of_neg (Bool.eq_false_iff.mp (hshown _ hfenced.opening_not_blank))
  obtain ⟨init, hinit⟩ : ∃ init, (lines block).map (trimLine ∘ lineWithin path) =
      init ++ [trimLine (lineWithin path (backticks n))] := by
    rw [hfenced.lines_eq, ← List.cons_append, List.map_append]
    exact ⟨_, rfl⟩
  have hnormal : Markdown.normalize most t = unlines
      ((kept.map trimLine).dropWhile List.isEmpty ++
        (lines block).map (trimLine ∘ lineWithin path)) := by
    rw [normalize_eq_unlines, hsqueezed, dropWhile_append_of_self _ hfirst, hinit, ← List.append_assoc,
      List.rdropWhile_concat_neg _ _ _ (Bool.eq_false_iff.mp (hshown _ hfenced.closing_not_blank))]
  refine ⟨(kept.map trimLine).dropWhile List.isEmpty, ?_⟩
  rw [hnormal]
  refine lines_unlines ?_ fun l hl => ?_
  · rw [hinit, ← List.append_assoc]
    exact fun hnil => List.concat_ne_nil _ _ hnil
  · have hmem : l ∈ squeezeFrom most none 0 ((lines (unifyBreaks t)).map trimLine) := by
      rw [hsqueezed]
      exact ((List.dropWhile_sublist _).append_right _).subset hl
    obtain ⟨k, hk, rfl⟩ := List.mem_map.mp ((squeezeFrom_sublist ..).subset hmem)
    exact fun hfeed => no_feed_of_mem_lines hk (mem_of_mem_trimLine hfeed)

/-! ## The code of a single text -/

/-- An element that starts a block does not keep its texts to itself, nor does an item. -/
theorem not_ownsText {name : Text} {attrs : Attributes} {cs : List Node}
    (h : (Node.element name attrs cs).isBlock = true ∨
      (Node.element name attrs cs).tag = "li".toList) : Node.ownsText name = false := by
  cases howns : Node.ownsText name with
  | false => rfl
  | true =>
    have hmem := List.contains_iff_mem.mp howns
    simp only [List.mem_cons, List.not_mem_nil, or_false] at hmem
    rcases hmem with rfl | rfl | rfl | rfl | rfl <;> rcases h with h | h <;> cases h

theorem owner_scopeWithin (path : List Layer) (scope : Scope) :
    Scope.owner (scopeWithin path scope) = Scope.owner scope := by
  induction path generalizing scope with
  | nil => rfl
  | cons layer path ih =>
    refine (ih (layer.scope scope)).trans ?_
    have hblock := layer.isBlock_around (.text [])
    have hkept : ∀ name s, Node.ownsText name = false →
        Scope.owner (name :: s) = Scope.owner s := fun name s h =>
      List.find?_cons_of_neg (Bool.eq_false_iff.mp h)
    cases layer with
    | container name attrs h => exact hkept _ _ (not_ownsText (.inl hblock))
    | quote name attrs h => exact hkept _ _ (not_ownsText (.inl hblock))
    | list ordered name attrs item itemAttrs h hstart hitem hvalue =>
      have hlist : Node.ownsText name = false := not_ownsText (.inl hblock)
      have hinner : Node.ownsText item = false := not_ownsText (.inr hitem)
      exact (hkept _ _ hinner).trans (hkept _ _ hlist)

/-- The code of a preformatted element with nothing but a text in it is that text, with the usual line
breaks, without a line feed at its start and without white space at its end. -/
theorem code_of_text (path : List Layer) {name : Text} {attrs : Attributes} {t : Text}
    (hrole : (Node.element name attrs [.text t]).role = .preformatted) :
    let place : Place := ⟨[], scopeWithin path [Place.documentTag], .element name attrs [.text t]⟩
    place.code = trimEnd (if (unifyBreaks t).head? == some '\n' then (unifyBreaks t).tail
      else unifyBreaks t) := by
  intro place
  have hblock := Node.isBlock_of_role hrole rfl
  have htext : place.text = t := by
    show Node.ownedTexts _ (Node.ownerInside name (Scope.owner _)) _ = t
    rw [owner_scopeWithin, Node.ownerInside, Node.ownerInside, not_ownsText (.inl hblock)]
    exact List.append_nil t
  have hsource : ((place.findTag? Figure.codeTag).getD place).text = t := htext
  rw [Place.code, hsource]

/-! ## Conversions -/

section Conversion

variable {opts : Options} {path : List Layer} {pre : Node}

/-- Code that is converted has a fence that fits. -/
theorem fenceFits_of_succeeds (hrole : pre.role = .preformatted)
    (h : (convertTree opts [nest path pre]).Succeeds) :
    Render.FenceFits opts (Place.code ⟨[], scopeWithin path [Place.documentTag], pre⟩) := by
  have hblock := Node.isBlock_of_role hrole rfl
  have hreached := Render.mem_reached_nest path [Place.documentTag] hblock
  have hfits := numbersFit_of_reached h (List.mem_singleton_self _) (Render.isBlock_nest path hblock)
    hreached
  simpa only [Render.NumbersFit, hrole] using hfits

/-- Before it is brought into the normal form, the document ends with the lines of the fenced block,
with what the containers make of them. -/
theorem convertTree_nest (hrole : pre.role = .preformatted) :
    let place : Place := ⟨[], scopeWithin path [Place.documentTag], pre⟩
    Render.FenceFits opts place.code →
    ∃ t, (convertTree opts [nest path pre]).outcome = .ok (Markdown.normalize opts.maxBlankLines t) ∧
      Shows (lineWithin path)
        (lines (fencedBlock opts.minFence (place.codeInfo opts) place.code)) (lines t) := by
  intro place hfits
  have hfenced := place.fenced_code opts
  have hblock := Node.isBlock_of_role hrole rfl
  have hlist : ∀ ordered, pre.role ≠ .list ordered := fun ordered h => by
    rw [hrole] at h
    cases h
  have hpre : (Render.block opts place.scope pre).outcome =
      .ok (fencedBlock opts.minFence (place.codeInfo opts) place.code) := by
    rw [Render.block_preformatted opts place.scope hrole]
    exact congrArg (fun x : Traced Unit => x.outcome.map _) (Render.fence_eq_pure hfits)
  have hclosing := hfenced.closing_mem
  have hshows := Render.showsBlock_nest hfenced.two_le_length hclosing hfenced.closing_not_blank
    hblock path (Render.showsBlock_of_block hfenced.two_le_length hclosing hfenced.closing_not_blank
      hblock hlist hpre (shows_self _))
  obtain ⟨t, ht, hlines⟩ := hshows.asBlock
  have hblank : allBlank t = false :=
    hlines.not_blank hclosing (not_allBlank_lineWithin path hfenced.closing_not_blank)
  have hjoin : joinBlocks [t] = t := List.intercalate_singleton
  have hblocks := Render.blocks_single (Render.isBlock_nest path hblock) ht hblank
  refine ⟨t, ?_, hlines⟩
  rw [convertTree, Render.siblings]
  refine bind_outcome_eq_ok_iff.mpr ⟨t, ?_, rfl⟩
  rw [bind_outcome_of_ok hblocks, Function.comp, hjoin]
  rfl

end Conversion

/-- Code survives any containers.  The conversion succeeds exactly if the fence of the code fits, and
then ends with the opening line of the fence, the lines of the code and the closing line, all after
the same margin, which the containers alone decide.  Lines are compared without white space at their
ends. -/
theorem code_kept_within (opts : Options) (path : List Layer) {pre : Node}
    (hrole : pre.role = .preformatted) :
    let place : Place := ⟨[], scopeWithin path [Place.documentTag], pre⟩
    IsMargin (margin path) ∧
    ((∃ out, (convertTree opts [nest path pre]).outcome = .ok out) ↔
      Render.FenceFits opts place.code) ∧
    ∀ out, (convertTree opts [nest path pre]).outcome = .ok out → ∃ length info above shown,
      opts.minFence ≤ length ∧ IsInfo info ∧ lines out = above ++ shown ∧
      shown.map trimEnd =
        ((backticks length ++ info) :: (lines place.code ++ [backticks length])).map fun l =>
          trimEnd (margin path ++ l) := by
  intro place
  have hfenced := place.fenced_code opts
  refine ⟨isMargin_margin path, ⟨fenceFits_of_succeeds hrole, fun hfits => ?_⟩, fun out hout => ?_⟩
  · obtain ⟨t, ht, -⟩ := convertTree_nest hrole hfits
    exact ⟨_, ht⟩
  · obtain ⟨t, ht, hlines⟩ := convertTree_nest hrole (fenceFits_of_succeeds hrole ⟨out, hout⟩)
    obtain rfl : out = _ := Except.ok.inj (hout.symm.trans ht)
    obtain ⟨above, hnormal⟩ := shows_normalize hfenced (place.no_return_fencedBlock opts) hlines
      opts.maxBlankLines
    refine ⟨fenceLength opts.minFence place.code, place.codeInfo opts, above, _, Nat.le_max_left ..,
      hfenced.isInfo, hnormal, ?_⟩
    rw [List.map_map, hfenced.lines_eq]
    exact List.map_congr_left fun l _ => (trimEnd_trimLine _).trans (trimEnd_lineWithin path l)

/-- A quotation in an item of a numbered list in a container. -/
def quotedItem : List Layer := [.container "div".toList [] (.inl rfl),
  .list true "ol".toList [] "li".toList [] rfl rfl rfl rfl, .quote "blockquote".toList [] rfl]

/-- Code with a fence and a blank line in it. -/
def codeWithFence : Node := .element "pre".toList [] [.text "a\n\n```\n- b".toList]

theorem code_kept_within_quoted_item :
    let place : Place := ⟨[], scopeWithin quotedItem [Place.documentTag], codeWithFence⟩
    let out := "1.\n\n  > ````\n  > a\n  >\n  > ```\n  > - b\n  > ````".toList
    lines place.code = ["a".toList, [], "```".toList, "- b".toList] ∧
    (convertTree Options.standard [nest quotedItem codeWithFence]).outcome = .ok out ∧
    IsMargin "  > ".toList ∧ ∃ length info above shown,
      Options.standard.minFence ≤ length ∧ IsInfo info ∧ lines out = above ++ shown ∧
      shown.map trimEnd =
        ((backticks length ++ info) :: (["a".toList, [], "```".toList, "- b".toList] ++
          [backticks length])).map fun l => trimEnd ("  > ".toList ++ l) := by
  have hconverted : (convertTree Options.standard [nest quotedItem codeWithFence]).outcome =
      .ok "1.\n\n  > ````\n  > a\n  >\n  > ```\n  > - b\n  > ````".toList := rfl
  intro place out
  have hcode : lines place.code = ["a".toList, [], "```".toList, "- b".toList] :=
    congrArg lines (code_of_text quotedItem rfl)
  have hrole : codeWithFence.role = .preformatted := rfl
  obtain ⟨hmargin, -, hkept⟩ := code_kept_within Options.standard quotedItem hrole
  obtain ⟨length, info, above, shown, hlength, hinfo, hlines, hshown⟩ := hkept out hconverted
  exact ⟨hcode, hconverted, hmargin, length, info, above, shown, hlength, hinfo, hlines,
    hcode ▸ hshown⟩

end Hypermark
