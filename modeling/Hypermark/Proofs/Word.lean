import Hypermark.Markdown.Block
import Hypermark.Markdown.ListItem
import Hypermark.Markdown.Normal
import Hypermark.Proofs.Trim

/-!
# Words survive layout

A word here is a piece of one line that neither starts nor ends with white space.  Layout cuts and
joins lines, puts things before them and takes white space from their ends, but it never breaks a
word: a word that occurs in a text still occurs in it as a quotation, as an item of a list and in
the normal form of the document.

* `occurs_lines`: a word stands on one line.
* `occurs_itemText`, `occurs_quote`, `occurs_normalize`: where it stands afterwards.
-/

namespace Hypermark

open Text Markdown

/-- A piece of one line without white space at its ends. -/
structure Word (w : Text) : Prop where
  first : ∃ c r, w = c :: r ∧ isBlank c = false
  last : ∃ r c, w = r ++ [c] ∧ isBlank c = false
  noFeed : '\n' ∉ w
  noReturn : '\r' ∉ w

/-! ## Joining -/

/-- A piece without the element between two lists stands in the first one or in the second one. -/
theorem append_cons_cases {α : Type} {x : α} {before piece after xs ys : List α} (hx : x ∉ piece)
    (h : before ++ piece ++ after = xs ++ x :: ys) :
    (∃ rest, xs = before ++ piece ++ rest) ∨
      ∃ rest, before = xs ++ x :: rest ∧ ys = rest ++ piece ++ after := by
  rw [List.append_assoc, List.append_eq_append_iff] at h
  rcases h with ⟨m, rfl, h⟩ | ⟨m, rfl, h⟩
  · rw [List.append_eq_append_iff] at h
    rcases h with ⟨rest, rfl, _⟩ | ⟨rest, rfl, h⟩
    · exact .inl ⟨rest, (List.append_assoc ..).symm⟩
    · cases rest with
      | nil => exact .inl ⟨[], by simp⟩
      | cons y rest =>
        obtain rfl := (List.cons.inj h).1
        exact absurd (by simp) hx
  · cases m with
    | nil =>
      cases piece with
      | nil => exact .inl ⟨[], by simp⟩
      | cons y piece =>
        obtain rfl := (List.cons.inj h).1
        exact absurd (List.mem_cons_self ..) hx
    | cons y m =>
      obtain ⟨rfl, rfl⟩ := List.cons.inj h
      exact .inr ⟨m, rfl, (List.append_assoc ..).symm⟩

theorem infix_append_cons {α : Type} {x : α} {piece xs ys : List α} (hx : x ∉ piece)
    (h : piece <:+: xs ++ x :: ys) : piece <:+: xs ∨ piece <:+: ys := by
  obtain ⟨before, after, h⟩ := h
  rcases append_cons_cases hx h with ⟨rest, rfl⟩ | ⟨rest, _, rfl⟩
  · exact .inl ⟨before, rest, rfl⟩
  · exact .inr ⟨rest, after, rfl⟩

/-- Two lists are the same if they are the same up to the first `x` and after it. -/
theorem append_cons_inj {α : Type} {x : α} {xs ys us vs : List α} (hxs : x ∉ xs) (hus : x ∉ us)
    (h : xs ++ x :: ys = us ++ x :: vs) : xs = us ∧ ys = vs := by
  induction xs generalizing us with
  | nil =>
    cases us with
    | nil => exact ⟨rfl, (List.cons.inj h).2⟩
    | cons u us => exact absurd (List.mem_cons.mpr (.inl (List.cons.inj h).1)) hus
  | cons a xs ih =>
    cases us with
    | nil => exact absurd (List.mem_cons.mpr (.inl (List.cons.inj h).1.symm)) hxs
    | cons u us =>
      obtain ⟨rfl, htail⟩ := List.cons.inj h
      obtain ⟨rfl, rfl⟩ := ih (fun hx => hxs (.tail _ hx)) (fun hx => hus (.tail _ hx)) htail
      exact ⟨rfl, rfl⟩

theorem infix_intercalate {α : Type} {sep t : List α} {parts : List (List α)} (h : t ∈ parts) :
    t <:+: sep.intercalate parts := by
  induction parts with
  | nil => cases h
  | cons u parts ih =>
    cases parts with
    | nil =>
      obtain rfl := List.mem_singleton.mp h
      exact ⟨[], [], by simp⟩
    | cons v parts =>
      rw [List.intercalate_cons_cons]
      rcases List.mem_cons.mp h with rfl | h
      · exact ⟨[], sep ++ sep.intercalate (v :: parts), by simp⟩
      · exact (ih h).trans (List.suffix_append _ _).isInfix

theorem forall_mem_intercalate {α : Type} {q : α → Prop} {sep : List α} {parts : List (List α)}
    (hsep : ∀ c ∈ sep, q c) (h : ∀ t ∈ parts, ∀ c ∈ t, q c) : ∀ c ∈ sep.intercalate parts, q c := by
  induction parts with
  | nil => exact nofun
  | cons t parts ih =>
    rw [List.forall_mem_cons] at h
    cases parts with
    | nil =>
      rw [List.intercalate_singleton]
      exact h.1
    | cons u parts =>
      rw [List.intercalate_cons_cons, List.forall_mem_append, List.forall_mem_append]
      exact ⟨⟨h.1, hsep⟩, ih h.2⟩

theorem infix_unlines {t : Text} {ls : List Text} (h : t ∈ ls) : t <:+: unlines ls :=
  infix_intercalate h

theorem infix_of_mem_lines {t l : Text} (h : l ∈ lines t) : l <:+: t := by
  have hline := infix_unlines h
  rwa [unlines_lines] at hline

theorem infix_joinBlocks {t : Text} {parts : List Text} (h : t ∈ parts) : t <:+: joinBlocks parts :=
  infix_intercalate h

/-- A carriage return and the text after it are one break only before a line feed. -/
theorem unifyBreaks_append (s : Text) {x : Text} (hx : x.head? ≠ some '\n') :
    unifyBreaks (s ++ x) = unifyBreaks s ++ unifyBreaks x := by
  fun_induction unifyBreaks s with
  | case1 => rfl
  | case2 cs ih => simp only [List.cons_append, unifyBreaks, ih]
  | case3 cs hcs ih =>
    rw [List.cons_append, unifyBreaks, ih]
    · rfl
    intro cs' h
    cases cs with
    | nil =>
      rw [List.nil_append] at h
      rw [h, List.head?_cons] at hx
      exact hx rfl
    | cons d cs =>
      rw [List.cons_append, List.cons.injEq] at h
      exact hcs cs (by rw [h.1])
  | case4 c cs h1 h2 ih =>
    rw [List.cons_append, unifyBreaks, ih]
    · rfl
    · exact fun _ hc _ => h2 hc
    · exact h2

namespace Word

variable {w t : Text} (hw : Word w)
include hw

theorem not_allBlank (h : w <:+: t) : allBlank t = false := by
  obtain ⟨c, r, rfl, hc⟩ := hw.first
  exact not_allBlank_of_mem (h.subset (List.mem_cons_self ..)) hc

theorem not_isEmpty (h : w <:+: t) : t.isEmpty = false := by
  have hblank := hw.not_allBlank h
  cases t with
  | nil => cases hblank
  | cons c t => rfl

/-! ## Trimming -/

theorem occurs_dropWhile {q : Char → Bool} (hq : ∀ c, isBlank c = false → q c = false)
    (h : w <:+: t) : w <:+: t.dropWhile q := by
  obtain ⟨c, r, rfl, hc⟩ := hw.first
  obtain ⟨u, v, rfl⟩ := h
  have hdrop : ((c :: r) ++ v).dropWhile q = (c :: r) ++ v := by
    rw [List.cons_append, List.dropWhile_cons_of_neg (by simp [hq c hc])]
  rw [List.append_assoc, List.dropWhile_append, hdrop]
  split
  · exact (List.prefix_append _ _).isInfix
  · exact ⟨u.dropWhile q, v, by simp⟩

theorem reverse : Word w.reverse where
  first := by
    obtain ⟨r, c, rfl, hc⟩ := hw.last
    exact ⟨c, r.reverse, by simp, hc⟩
  last := by
    obtain ⟨c, r, rfl, hc⟩ := hw.first
    exact ⟨r.reverse, c, by simp, hc⟩
  noFeed h := hw.noFeed (List.mem_reverse.mp h)
  noReturn h := hw.noReturn (List.mem_reverse.mp h)

theorem occurs_dropEndWhile {q : Char → Bool} (hq : ∀ c, isBlank c = false → q c = false)
    (h : w <:+: t) : w <:+: dropEndWhile q t := by
  have hdrop := hw.reverse.occurs_dropWhile hq (List.reverse_infix.mpr h)
  rw [dropEndWhile, ← List.reverse_infix, List.reverse_reverse]
  exact hdrop

theorem occurs_trim (h : w <:+: t) : w <:+: trim t :=
  hw.occurs_dropEndWhile (fun _ hc => hc) (hw.occurs_dropWhile (fun _ hc => hc) h)

/-! ## Lines -/

theorem occurs_of_append_feed {u : Text} (h : w <:+: t ++ '\n' :: u) : w <:+: t ∨ w <:+: u :=
  infix_append_cons hw.noFeed h

theorem occurs_of_unlines {ls : List Text} (h : w <:+: unlines ls) : ∃ l ∈ ls, w <:+: l := by
  induction ls with
  | nil =>
    obtain ⟨c, r, rfl, _⟩ := hw.first
    have hmem := h.subset (List.mem_cons_self ..)
    cases hmem
  | cons l ls ih =>
    cases ls with
    | nil => exact ⟨l, List.mem_cons_self .., by simpa [unlines] using h⟩
    | cons m ls =>
      have hcons : unlines (l :: m :: ls) = l ++ '\n' :: unlines (m :: ls) := by
        rw [unlines, List.intercalate_cons_cons, List.append_assoc]
        rfl
      rw [hcons] at h
      rcases hw.occurs_of_append_feed h with h | h
      · exact ⟨l, List.mem_cons_self .., h⟩
      · obtain ⟨k, hk, hkw⟩ := ih h
        exact ⟨k, List.mem_cons_of_mem _ hk, hkw⟩

theorem occurs_lines (h : w <:+: t) : ∃ l ∈ lines t, w <:+: l := by
  rw [← unlines_lines t] at h
  exact hw.occurs_of_unlines h

theorem occurs_map_lines {f : Text → Text} (hf : ∀ l, w <:+: l → w <:+: f l) (h : w <:+: t) :
    ∃ l ∈ (lines t).map f, w <:+: l := by
  obtain ⟨l, hl, hlw⟩ := hw.occurs_lines h
  exact ⟨f l, List.mem_map_of_mem hl, hf l hlw⟩

/-! ## Quotations and items -/

theorem occurs_quoteLine {l : Text} (h : w <:+: l) : w <:+: quoteLine l := by
  rw [quoteLine, if_neg (by simp [hw.not_allBlank h])]
  exact h.trans (List.suffix_append ['>', ' '] l).isInfix

theorem occurs_quote (h : w <:+: t) : w <:+: quote t := by
  obtain ⟨l, hl, hlw⟩ := hw.occurs_map_lines (fun _ => hw.occurs_quoteLine) h
  rw [quote, if_neg (by simp [hw.not_allBlank h])]
  exact hlw.trans (infix_unlines hl)

theorem occurs_markerLine (marker : Text) (h : w <:+: t) : w <:+: markerLine marker t := by
  have hne := hw.not_isEmpty h
  obtain ⟨u, v, rfl⟩ := h
  have hself : w.flatMap (fun c => if c = '\n' then '\n' :: List.replicate marker.length ' ' else [c]) =
      w := by
    have hsame : ∀ c ∈ w, (if c = '\n' then '\n' :: List.replicate marker.length ' ' else [c]) =
        [c] := by
      intro c hc
      apply if_neg
      rintro rfl
      exact hw.noFeed hc
    rw [List.flatMap_congr hsame, List.flatMap_singleton']
  rw [markerLine, hne, if_neg Bool.false_ne_true, List.flatMap_append, List.flatMap_append, hself]
  exact (List.infix_append _ w _).trans (List.suffix_append marker _).isInfix

theorem occurs_indentLine (depth : Nat) {l : Text} (h : w <:+: l) : w <:+: indentLine depth l := by
  rw [indentLine, if_neg (by simp [hw.not_allBlank h])]
  exact h.trans (List.suffix_append _ l).isInfix

theorem occurs_segmentLines (depth : Nat) (kind : SegmentKind) (h : w <:+: t) :
    ∃ l ∈ segmentLines depth kind t, w <:+: l := by
  have hblank := hw.not_allBlank h
  have hblock : ∃ l ∈ (if allBlank t then [] else (lines t).map (indentLine depth)), w <:+: l := by
    rw [hblank]
    exact hw.occurs_map_lines (fun _ => hw.occurs_indentLine depth) h
  cases kind with
  | inline => exact hblock
  | block => exact hblock
  | nestedList =>
    show ∃ l ∈ (if t.isEmpty then [] else lines t), w <:+: l
    rw [hw.not_isEmpty h]
    exact hw.occurs_lines h

omit hw in
theorem mem_addSegments_of_above {depth : Nat} {above : List Text} {previous : Option SegmentKind}
    {below : List (SegmentKind × Text)} {l : Text} (h : l ∈ above) :
    l ∈ addSegments depth above previous below := by
  induction below generalizing above previous with
  | nil => exact h
  | cons s below ih =>
    obtain ⟨kind, u⟩ := s
    rw [addSegments]
    split
    · exact ih h
    · exact ih (List.mem_append_left _ (List.mem_append_left _ h))

theorem occurs_addSegments {depth : Nat} {above : List Text} {previous : Option SegmentKind}
    {below : List (SegmentKind × Text)} {s : SegmentKind × Text} (hs : s ∈ below)
    (h : w <:+: s.2) : ∃ l ∈ addSegments depth above previous below, w <:+: l := by
  induction below generalizing above previous with
  | nil => cases hs
  | cons r below ih =>
    obtain ⟨kind, u⟩ := r
    rw [addSegments]
    rcases List.mem_cons.mp hs with rfl | hs
    · obtain ⟨l, hl, hlw⟩ := hw.occurs_segmentLines depth kind h
      cases hls : segmentLines depth kind u with
      | nil =>
        rw [hls] at hl
        cases hl
      | cons k ks =>
        rw [hls] at hl
        exact ⟨l, mem_addSegments_of_above (List.mem_append_right _ hl), hlw⟩
    · split
      · exact ih hs
      · exact ih hs

theorem occurs_itemText_of_marker (depth : Nat) (marker : Text)
    (below : List (SegmentKind × Text)) (h : w <:+: t) : w <:+: itemText depth marker t below :=
  (hw.occurs_markerLine marker h).trans
    (infix_unlines (mem_addSegments_of_above (List.mem_singleton_self _)))

theorem occurs_itemText {depth : Nat} {marker : Text} {below : List (SegmentKind × Text)}
    {s : SegmentKind × Text} (hs : s ∈ below) (h : w <:+: s.2) :
    w <:+: itemText depth marker t below := by
  obtain ⟨l, hl, hlw⟩ := hw.occurs_addSegments hs h
  exact hlw.trans (infix_unlines hl)

/-! ## Documents -/

theorem occurs_unifyBreaks (h : w <:+: t) : w <:+: unifyBreaks t := by
  obtain ⟨u, v, rfl⟩ := h
  have hword : ∀ s : Text, '\r' ∉ s → unifyBreaks (s ++ v) = s ++ unifyBreaks v := by
    intro s hs
    induction s with
    | nil => rfl
    | cons c s ih =>
      rw [List.mem_cons, not_or] at hs
      rw [List.cons_append, unifyBreaks, ih hs.2, List.cons_append]
      · intro cs hc
        exact absurd hc.symm hs.1
      · intro hc
        exact absurd hc.symm hs.1
  obtain ⟨c, r, hcr, hc⟩ := hw.first
  have hhead : (w ++ v).head? ≠ some '\n' := by
    rw [hcr, List.cons_append, List.head?_cons]
    intro he
    rw [Option.some.inj he] at hc
    cases hc
  rw [List.append_assoc, unifyBreaks_append u hhead, hword w hw.noReturn]
  exact ⟨unifyBreaks u, unifyBreaks v, by simp⟩

theorem mem_squeezeFrom {most : Int} {fence : Option Fence} {blanks : Nat} {l : Text}
    {ls : List Text} (hl : l ∈ ls) (h : w <:+: l) : l ∈ squeezeFrom most fence blanks ls := by
  induction ls generalizing fence blanks with
  | nil => cases hl
  | cons k ls ih =>
    simp only [squeezeFrom]
    rcases List.mem_cons.mp hl with rfl | hl
    · rw [hw.not_allBlank h]
      split
      · exact List.mem_cons_self ..
      · exact List.mem_cons_self ..
    · split
      · exact List.mem_cons_of_mem _ (ih hl)
      split
      · exact List.mem_cons_of_mem _ (ih hl)
      split
      · exact List.mem_cons_of_mem _ (ih hl)
      · exact ih hl

theorem occurs_normalize (most : Int) (h : w <:+: t) : w <:+: Markdown.normalize most t := by
  have hfeed : ∀ c, isBlank c = false → isLineFeed c = false := by
    intro c hc
    rw [isLineFeed, beq_eq_false_iff_ne]
    rintro rfl
    cases hc
  have htrim : ∀ l, w <:+: l → w <:+: trimLine l := by
    intro l hl
    refine hw.occurs_dropEndWhile (fun c hc => ?_) hl
    rw [Bool.or_eq_false_iff, beq_eq_false_iff_ne, beq_eq_false_iff_ne]
    constructor
    · rintro rfl
      cases hc
    · rintro rfl
      cases hc
  obtain ⟨l, hl, hlw⟩ := hw.occurs_map_lines htrim (hw.occurs_unifyBreaks h)
  obtain ⟨k, hk, hkw⟩ := hw.occurs_lines (hlw.trans (infix_unlines hl))
  have hsqueeze : w <:+: squeeze most (unlines ((lines (unifyBreaks t)).map trimLine)) :=
    hkw.trans (infix_unlines (hw.mem_squeezeFrom hk hkw))
  exact hw.occurs_dropEndWhile hfeed (hw.occurs_dropWhile hfeed hsqueeze)

end Word

end Hypermark
