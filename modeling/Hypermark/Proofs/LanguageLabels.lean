import Hypermark.Proofs.BlockNeighbours
import Hypermark.Proofs.ListDepth
import Hypermark.Proofs.NestedCode
import Hypermark.Proofs.SilentBlocks

/-!
# Texts that differ in the languages of their code blocks

Two texts of the same lines, but for the opening lines of code blocks, which carry the language in one
of them and not in the other.  The relation names each block together with what quotations and lists
around it have done to its lines, so it survives whatever else is done to the text line by line.

All that a renderer looks at is the same in both texts: how many lines there are, whether they are
blank, and what the last one is.  A text of a single line has no room for a block, and is the same.

* `Listing`: a code block line by line, with its language and without.
* `Relabelled`: two lists of lines, `Relabels`: two texts.
* `Relabelled.line`, `Relabelled.exists_margin_opening`: what stands at one and the same position.
* `Relabels.quote`, `relabels_joinBlocks`, `relabels_itemText`: blocks that are put together.
-/

namespace Hypermark

open Text Markdown

/-! ## Code blocks -/

/-- A code block as it is written. -/
structure Listing where
  /-- The number of backticks of a fence. -/
  length : Nat
  language : Text
  caption : Text
  code : List Text
  length_pos : 0 < length
  no_feed : ∀ l ∈ language :: caption :: code, '\n' ∉ l

namespace Listing

variable (b : Listing)

def fence : Text := backticks b.length

/-- The language with the space that parts it from the caption. -/
def word : Text :=
  if b.language.isEmpty || b.caption.isEmpty then b.language else b.language ++ [' ']

/-- The lines under the opening line. -/
def body : List Text := b.code ++ [b.fence]

/-- The lines with the language. -/
def labelled : List Text := (b.fence ++ b.word ++ b.caption) :: b.body

/-- The lines without the language. -/
def bare : List Text := (b.fence ++ b.caption) :: b.body

theorem allBlank_fence_append (t : Text) : allBlank (b.fence ++ t) = false := by
  obtain ⟨m, hm⟩ := Nat.exists_eq_succ_of_ne_zero (Nat.pos_iff_ne_zero.mp b.length_pos)
  have hfence : b.fence = backtick :: backticks m := by
    rw [fence, hm]
    rfl
  rw [hfence, List.cons_append]
  exact not_allBlank_of_mem (List.mem_cons_self ..) (by decide)

theorem no_feed_body : ∀ l ∈ b.body, '\n' ∉ l := by
  rw [body, List.forall_mem_append, List.forall_mem_singleton]
  exact ⟨fun l hl => b.no_feed l (List.mem_cons_of_mem _ (List.mem_cons_of_mem _ hl)),
    not_mem_backticks (by decide) _⟩

theorem no_feed_bare : ∀ l ∈ b.bare, '\n' ∉ l := by
  rw [bare, List.forall_mem_cons, List.mem_append, not_or]
  exact ⟨⟨not_mem_backticks (by decide) _, b.no_feed _ (.tail _ (.head _))⟩, b.no_feed_body⟩

theorem no_feed_labelled : ∀ l ∈ b.labelled, '\n' ∉ l := by
  have hword : '\n' ∉ b.word := by
    have hlanguage := b.no_feed b.language (.head _)
    rw [word]
    split
    · exact hlanguage
    · rw [List.mem_append, not_or]
      exact ⟨hlanguage, by decide⟩
  rw [labelled, List.forall_mem_cons, List.mem_append, List.mem_append, not_or, not_or]
  exact ⟨⟨⟨not_mem_backticks (by decide) _, hword⟩, b.no_feed _ (.tail _ (.head _))⟩, b.no_feed_body⟩

end Listing

/-! ## Blocks within others -/

/-- What quotations and lists do to the lines in them. -/
inductive Nesting : (Text → Text) → Prop
  | here : Nesting id
  | quoted {g : Text → Text} : Nesting g → Nesting (quoteLine ∘ g)
  | indented {g : Text → Text} (depth : Nat) : Nesting g → Nesting (indentLine depth ∘ g)

theorem isMargin_indent (depth : Nat) : IsMargin (indent depth) := by
  refine ⟨List.replicate (2 * depth) [' '], ?_, fun p hp => .inl (List.eq_of_mem_replicate hp)⟩
  rw [indent, List.flatten_replicate_singleton]

theorem IsMargin.append {s t : Text} (hs : IsMargin s) (ht : IsMargin t) : IsMargin (s ++ t) := by
  obtain ⟨ps, rfl, hps⟩ := hs
  obtain ⟨qs, rfl, hqs⟩ := ht
  exact ⟨ps ++ qs, List.flatten_append.symm, List.forall_mem_append.mpr ⟨hps, hqs⟩⟩

namespace Nesting

variable {g : Text → Text}

/-- Lines with text get a margin. -/
theorem exists_margin (h : Nesting g) :
    ∃ m, IsMargin m ∧ ∀ l, allBlank l = false → g l = m ++ l := by
  have hshown : ∀ (m : Text) {l : Text}, allBlank l = false → allBlank (m ++ l) = false :=
    fun m l hl => not_allBlank_of_infix hl (List.suffix_append m l).isInfix
  induction h with
  | here => exact ⟨[], ⟨[], rfl, List.forall_mem_nil _⟩, fun l _ => rfl⟩
  | @quoted g _ ih =>
    obtain ⟨m, hm, hg⟩ := ih
    have hquote : IsMargin "> ".toList :=
      ⟨["> ".toList], rfl, (List.forall_mem_singleton ..).mpr (.inr rfl)⟩
    refine ⟨_, hquote.append hm, fun l hl => ?_⟩
    rw [Function.comp_apply, hg l hl, quoteLine, if_neg (Bool.eq_false_iff.mp (hshown m hl)),
      List.append_assoc]
    rfl
  | @indented g depth _ ih =>
    obtain ⟨m, hm, hg⟩ := ih
    refine ⟨_, (isMargin_indent (depth + 1)).append hm, fun l hl => ?_⟩
    rw [Function.comp_apply, hg l hl, indentLine_of_not_blank (hshown m hl), List.append_assoc]

theorem no_feed (h : Nesting g) {l : Text} (hl : '\n' ∉ l) : '\n' ∉ g l := by
  induction h with
  | here => exact hl
  | quoted _ ih => exact not_mem_quoteLine (by decide) (by decide) ih
  | indented depth _ ih => exact not_mem_indentLine (by decide) depth ih

theorem allBlank_opening (h : Nesting g) (b : Listing) (t : Text) :
    allBlank (g (b.fence ++ t)) = false := by
  obtain ⟨m, -, hg⟩ := h.exists_margin
  rw [hg _ (b.allBlank_fence_append t)]
  exact not_allBlank_of_infix (b.allBlank_fence_append t) (List.suffix_append m _).isInfix

theorem flatMap_lines (h : Nesting g) {ls : List Text} (hls : ∀ l ∈ ls, '\n' ∉ l) :
    (ls.map g).flatMap lines = ls.map g := by
  induction ls with
  | nil => rfl
  | cons l ls ih =>
    rw [List.forall_mem_cons] at hls
    rw [List.map_cons, List.flatMap_cons, ih hls.2, lines_of_no_feed (h.no_feed hls.1)]
    rfl

end Nesting

/-! ## Lines -/

/-- Two lists of the same lines, but that some blocks with `P` have their language in the first and
not in the second. -/
inductive Relabelled (P : Listing → Prop) : List Text → List Text → Prop
  | nil : Relabelled P [] []
  | same (l : Text) {ls ls' : List Text} : Relabelled P ls ls' → Relabelled P (l :: ls) (l :: ls')
  | block {b : Listing} {g : Text → Text} {ls ls' : List Text} : P b → Nesting g →
      Relabelled P ls ls' → Relabelled P (b.labelled.map g ++ ls) (b.bare.map g ++ ls')

namespace Relabelled

variable {P : Listing → Prop} {ls ls' ks ks' : List Text}

theorem refl (ls : List Text) : Relabelled P ls ls := by
  induction ls with
  | nil => exact .nil
  | cons l ls ih => exact .same l ih

theorem append (h : Relabelled P ls ls') (hk : Relabelled P ks ks') :
    Relabelled P (ls ++ ks) (ls' ++ ks') := by
  induction h with
  | nil => exact hk
  | same l _ ih => exact .same l ih
  | block hb hg _ ih =>
    rw [List.append_assoc, List.append_assoc]
    exact .block hb hg ih

theorem length_eq (h : Relabelled P ls ls') : ls.length = ls'.length := by
  induction h with
  | nil => rfl
  | same l _ ih => rw [List.length_cons, List.length_cons, ih]
  | block _ _ _ ih =>
    rw [List.length_append, List.length_append, ih, List.length_map, List.length_map]
    rfl

/-- A block has an opening line and a closing line, so a single line is none. -/
theorem eq_of_length_le_one (h : Relabelled P ls ls') (hlength : ls.length ≤ 1) : ls' = ls := by
  induction h with
  | nil => rfl
  | same l _ ih =>
    rw [List.length_cons] at hlength
    rw [ih (by omega)]
  | @block b g ls ls' _ _ _ _ =>
    have hlabelled : 2 ≤ (b.labelled.map g).length := by
      rw [List.length_map, Listing.labelled, Listing.body, List.length_cons, List.length_append]
      simp
    rw [List.length_append] at hlength
    omega

/-- The last line of a block is its fence. -/
theorem getLast?_eq (h : Relabelled P ls ls') : ls.getLast? = ls'.getLast? := by
  induction h with
  | nil => rfl
  | same l _ ih => rw [List.getLast?_cons, List.getLast?_cons, ih]
  | @block b g ls ls' _ _ _ ih =>
    have hend : ∀ opening, ((opening :: b.body).map g).getLast? = some (g b.fence) := by
      intro opening
      rw [Listing.body, ← List.cons_append, List.map_append, List.map_singleton, List.getLast?_concat]
    rw [List.getLast?_append, List.getLast?_append, ih, Listing.labelled, Listing.bare, hend, hend]

theorem all_blank_iff (h : Relabelled P ls ls') :
    (∀ l ∈ ls, allBlank l = true) ↔ ∀ l ∈ ls', allBlank l = true := by
  induction h with
  | nil => exact Iff.rfl
  | same l _ ih => rw [List.forall_mem_cons, List.forall_mem_cons, ih]
  | @block b g ls ls' _ hg _ _ =>
    have hopening : ∀ t rest, ¬∀ l ∈ ((b.fence ++ t) :: b.body).map g ++ rest,
        allBlank l = true := by
      intro t rest hall
      have hblank := hall _ (List.mem_append_left _ (List.mem_cons_self ..))
      rw [hg.allBlank_opening] at hblank
      cases hblank
    rw [Listing.labelled, Listing.bare, List.append_assoc]
    exact iff_of_false (hopening _ _) (hopening _ _)

theorem map {k : Text → Text} (hk : ∀ {g : Text → Text}, Nesting g → Nesting (k ∘ g))
    (h : Relabelled P ls ls') : Relabelled P (ls.map k) (ls'.map k) := by
  induction h with
  | nil => exact .nil
  | same l _ ih => exact .same (k l) ih
  | block hb hg _ ih =>
    rw [List.map_append, List.map_append, List.map_map, List.map_map]
    exact .block hb (hk hg) ih

/-- Lines that are texts of several lines, cut to lines. -/
theorem flatMap_lines (h : Relabelled P ls ls') :
    Relabelled P (ls.flatMap lines) (ls'.flatMap lines) := by
  induction h with
  | nil => exact .nil
  | same l _ ih =>
    rw [List.flatMap_cons, List.flatMap_cons]
    exact (refl (lines l)).append ih
  | @block b g ls ls' hb hg _ ih =>
    rw [List.flatMap_append, List.flatMap_append, hg.flatMap_lines b.no_feed_labelled,
      hg.flatMap_lines b.no_feed_bare]
    exact .block hb hg ih

/-- At one position there is the same line, or a block starts there. -/
theorem line (h : Relabelled P ls ls') {i : Nat} {l l' : Text} (hl : ls[i]? = some l)
    (hl' : ls'[i]? = some l') : l = l' ∨ ∃ b g, P b ∧ Nesting g ∧
      b.labelled.map g <+: ls.drop i ∧ b.bare.map g <+: ls'.drop i := by
  induction h generalizing i with
  | nil => cases hl
  | same k _ ih =>
    cases i with
    | zero => exact .inl (Option.some.inj (hl.symm.trans hl'))
    | succ i => exact ih hl hl'
  | @block b g ls ls' hb hg _ ih =>
    cases i with
    | zero => exact .inr ⟨b, g, hb, hg, List.prefix_append .., List.prefix_append ..⟩
    | succ i =>
      have hcons : ∀ opening rest, ((opening :: b.body).map g ++ rest)[i + 1]? =
          (b.body.map g ++ rest)[i]? := fun _ _ => rfl
      have hdrop : ∀ opening rest, ((opening :: b.body).map g ++ rest).drop (i + 1) =
          (b.body.map g ++ rest).drop i := fun _ _ => rfl
      rw [Listing.labelled, hcons] at hl
      rw [Listing.bare, hcons] at hl'
      rw [Listing.labelled, Listing.bare, hdrop, hdrop]
      by_cases hi : i < (b.body.map g).length
      · -- under its opening line the block is the same
        rw [List.getElem?_append_left hi] at hl hl'
        exact .inl (Option.some.inj (hl.symm.trans hl'))
      · rw [Nat.not_lt] at hi
        rw [List.getElem?_append_right hi] at hl hl'
        have hskip : ∀ rest, (b.body.map g ++ rest).drop i =
            rest.drop (i - (b.body.map g).length) := by
          intro rest
          rw [List.drop_append, List.drop_of_length_le hi, List.nil_append]
        rw [hskip, hskip]
        exact ih hl hl'

/-- Where a block starts there is its opening line, after a margin. -/
theorem exists_margin_opening {b : Listing} {g : Text → Text} (hg : Nesting g) {i : Nat}
    {l l' : Text} (hl : ls[i]? = some l) (hl' : ls'[i]? = some l')
    (hlabelled : b.labelled.map g <+: ls.drop i) (hbare : b.bare.map g <+: ls'.drop i) :
    ∃ m, IsMargin m ∧ l = m ++ b.fence ++ b.word ++ b.caption ∧ l' = m ++ b.fence ++ b.caption := by
  have hfirst : ∀ {opening : Text} {ls : List Text} {l : Text}, ls[i]? = some l →
      (opening :: b.body).map g <+: ls.drop i → l = g opening := by
    intro opening ls l hl hprefix
    obtain ⟨rest, hrest⟩ := hprefix
    have hhead : (ls.drop i)[0]? = ls[i]? := by rw [List.getElem?_drop, Nat.add_zero]
    rw [hl, ← hrest] at hhead
    exact (Option.some.inj hhead).symm
  obtain ⟨m, hm, hmargin⟩ := hg.exists_margin
  refine ⟨m, hm, ?_, ?_⟩
  · rw [hfirst hl hlabelled, List.append_assoc, hmargin _ (b.allBlank_fence_append _)]
    simp only [List.append_assoc]
  · rw [hfirst hl' hbare, hmargin _ (b.allBlank_fence_append _), List.append_assoc]

end Relabelled

/-! ## Texts -/

/-- The same for the lines of two texts. -/
def Relabels (P : Listing → Prop) (t t' : Text) : Prop := Relabelled P (lines t) (lines t')

theorem lines_unlines_flatMap {ts : List Text} (hne : ts ≠ []) :
    lines (unlines ts) = ts.flatMap lines := by
  induction ts with
  | nil => exact absurd rfl hne
  | cons t ts ih =>
    cases ts with
    | nil =>
      rw [unlines, List.intercalate_singleton, List.flatMap_singleton]
    | cons u ts =>
      rw [unlines_cons_cons, lines_append_feed, ih (List.cons_ne_nil u ts)]
      rfl

section Texts

variable {P : Listing → Prop} {t t' : Text} {ls ls' ts ts' : List Text}

namespace Relabels

theorem refl (t : Text) : Relabels P t t := Relabelled.refl _

/-- There is no block on a single line. -/
theorem eq_of_no_feed (h : Relabels P t t') (hfeed : '\n' ∉ t) : t' = t := by
  have hone : (lines t).length ≤ 1 := by rw [lines_of_no_feed hfeed, List.length_singleton]
  rw [← unlines_lines t', h.eq_of_length_le_one hone, unlines_lines]

theorem contains_feed_eq (h : Relabels P t t') : t.contains '\n' = t'.contains '\n' := by
  have hcount : ∀ t : Text, t.contains '\n' = true ↔ 1 < (lines t).length := by
    intro t
    rw [List.contains_iff_mem]
    constructor
    · intro hfeed
      obtain ⟨before, after, rfl⟩ := List.append_of_mem hfeed
      have hbefore := List.length_pos_iff.mpr (List.splitOn_ne_nil '\n' before)
      have hafter := List.length_pos_iff.mpr (List.splitOn_ne_nil '\n' after)
      rw [lines_append_feed, List.length_append, lines, lines]
      omega
    · intro hlength
      by_contra hfeed
      rw [lines_of_no_feed hfeed] at hlength
      exact absurd hlength (Nat.lt_irrefl 1)
  rw [Bool.eq_iff_iff, hcount, hcount, h.length_eq]

theorem allBlank_eq (h : Relabels P t t') : allBlank t = allBlank t' := by
  rw [Bool.eq_iff_iff, ← unlines_lines t, ← unlines_lines t', allBlank_unlines, allBlank_unlines]
  exact h.all_blank_iff

theorem isEmpty_eq (h : Relabels P t t') : t.isEmpty = t'.isEmpty := by
  by_cases hfeed : '\n' ∈ t
  · have hfeed' : '\n' ∈ t' := by
      rw [← List.contains_iff_mem, ← h.contains_feed_eq, List.contains_iff_mem]
      exact hfeed
    rw [List.isEmpty_eq_false_iff.mpr (List.ne_nil_of_mem hfeed),
      List.isEmpty_eq_false_iff.mpr (List.ne_nil_of_mem hfeed')]
  · rw [h.eq_of_no_feed hfeed]

end Relabels

theorem relabels_unlines (h : Relabelled P ls ls') : Relabels P (unlines ls) (unlines ls') := by
  cases ls with
  | nil =>
    rw [h.eq_of_length_le_one (Nat.zero_le 1)]
    exact .refl _
  | cons l ls =>
    have hne : ls' ≠ [] := by
      rw [← List.length_pos_iff, ← h.length_eq]
      exact Nat.succ_pos _
    rw [Relabels, lines_unlines_flatMap (List.cons_ne_nil l ls), lines_unlines_flatMap hne]
    exact h.flatMap_lines

theorem relabels_unlines_texts (h : List.Forall₂ (Relabels P) ts ts') :
    Relabels P (unlines ts) (unlines ts') := by
  have hlines : Relabelled P (ts.flatMap lines) (ts'.flatMap lines) := by
    induction h with
    | nil => exact .nil
    | cons ht _ ih =>
      rw [List.flatMap_cons, List.flatMap_cons]
      exact ht.append ih
  cases h with
  | nil => exact .refl _
  | cons ht hts =>
    rw [Relabels, lines_unlines_flatMap (List.cons_ne_nil _ _),
      lines_unlines_flatMap (List.cons_ne_nil _ _)]
    exact hlines

theorem relabels_joinBlocks (h : List.Forall₂ (Relabels P) ts ts') :
    Relabels P (joinBlocks ts) (joinBlocks ts') := by
  induction h with
  | nil => exact .refl _
  | cons ht hts ih =>
    cases hts with
    | nil =>
      rw [joinBlocks, joinBlocks, List.intercalate_singleton, List.intercalate_singleton]
      exact ht
    | cons hu hus =>
      have hgap : ∀ t u : Text, lines (t ++ ['\n', '\n'] ++ u) = lines t ++ [] :: lines u := by
        intro t u
        rw [List.append_assoc, List.cons_append, lines_append_feed, List.cons_append, lines_feed]
        rfl
      rw [joinBlocks_cons (List.cons_ne_nil _ _), joinBlocks_cons (List.cons_ne_nil _ _), Relabels,
        hgap, hgap]
      exact ht.append (.same [] ih)

theorem Relabels.quote (h : Relabels P t t') : Relabels P (quote t) (quote t') := by
  rw [Markdown.quote, Markdown.quote, h.allBlank_eq]
  split
  · exact .refl _
  · exact relabels_unlines (h.map fun hg => .quoted hg)

/-! ## Items -/

theorem Relabels.segmentLines (h : Relabels P t t') (depth : Nat) (kind : SegmentKind) :
    Relabelled P (segmentLines depth kind t) (segmentLines depth kind t') := by
  have hindented : Relabelled P (if allBlank t then [] else (lines t).map (indentLine depth))
      (if allBlank t' then [] else (lines t').map (indentLine depth)) := by
    rw [h.allBlank_eq]
    split
    · exact .nil
    · exact h.map fun hg => .indented depth hg
  cases kind with
  | inline => exact hindented
  | block => exact hindented
  | nestedList =>
    rw [Markdown.segmentLines, Markdown.segmentLines, h.isEmpty_eq]
    split
    · exact .nil
    · exact h

/-- The same segments, but for languages. -/
def RelabelsSegment (P : Listing → Prop) (s s' : SegmentKind × Text) : Prop :=
  s.1 = s'.1 ∧ Relabels P s.2 s'.2

theorem relabelled_addSegments (depth : Nat) {above above' : List Text}
    {below below' : List (SegmentKind × Text)} (hbelow : List.Forall₂ (RelabelsSegment P) below below')
    (habove : Relabelled P above above') (previous : Option SegmentKind) :
    Relabelled P (addSegments depth above previous below)
      (addSegments depth above' previous below') := by
  induction hbelow generalizing above above' previous with
  | nil => exact habove
  | @cons s s' below below' hs _ ih =>
    obtain ⟨kind, t⟩ := s
    obtain ⟨kind', t'⟩ := s'
    obtain ⟨rfl, ht⟩ := hs
    have hlines := ht.segmentLines depth kind
    rw [addSegments, addSegments, habove.getLast?_eq]
    generalize Markdown.segmentLines depth kind t = ls at hlines
    generalize Markdown.segmentLines depth kind t' = ls' at hlines
    cases ls with
    | nil =>
      rw [hlines.eq_of_length_le_one (Nat.zero_le 1)]
      exact ih habove previous
    | cons l ls =>
      cases ls' with
      | nil => cases hlines.length_eq
      | cons l' ls' => exact ih ((habove.append (.refl _)).append hlines) (some kind)

theorem relabels_itemText (depth : Nat) (marker text : Text)
    {below below' : List (SegmentKind × Text)}
    (h : List.Forall₂ (RelabelsSegment P) below below') :
    Relabels P (itemText depth marker text below) (itemText depth marker text below') :=
  relabels_unlines (relabelled_addSegments depth h (.refl _) none)

end Texts

end Hypermark
