import Mathlib.Data.List.Forall2
import Hypermark.Proofs.CellScan
import Hypermark.Proofs.DocumentLines
import Hypermark.Proofs.Ink
import Hypermark.Table.Layout

/-!
# The lines that a cell shows

A cell shows the lines of its value, trimmed and without the blank ones.  Neither the kind of the
line breaks nor white space at the ends of the value makes a difference, and escaping keeps the
lines apart: it only puts backslashes before bars.

* `filter_lines_unifyBreaks`: unifying the line breaks only removes empty lines.
* `displayLines_trim`: trimming a value keeps the lines that it shows.
* `guarded_displayLines`, `guarded_cellLines`: what is shown of an escaped value, whether it is
  escaped as a whole or line by line.
-/

namespace Hypermark

namespace Text

/-- Lines as they are shown: trimmed, blank ones left out. -/
def shown (ls : List Text) : List Text := (ls.map trim).filter (!·.isEmpty)

/-- The lines that a value shows. -/
def displayLines (value : Text) : List Text := shown (lines (unifyBreaks value))

def isBreak (c : Char) : Bool := c == '\r' || c == '\n'

/-- The pieces of a text between its line breaks, each carriage return and line feed being one. -/
def pieces (t : Text) : List Text := t.splitOnP isBreak

/-! ## White space at the ends -/

theorem trimEnd_cons (c : Char) (t : Text) : trimEnd (c :: t) =
    if isBlank c && (trimEnd t).isEmpty then [] else c :: trimEnd t := by
  rw [trimEnd, trimEnd, dropEndWhile, dropEndWhile, List.reverse_cons, List.dropWhile_append,
    List.isEmpty_reverse]
  by_cases hempty : (t.reverse.dropWhile isBlank).isEmpty = true
  · rw [if_pos hempty, hempty, Bool.and_true]
    rw [List.isEmpty_iff.mp hempty]
    by_cases hc : isBlank c = true
    · rw [if_pos hc, List.dropWhile_cons_of_pos hc]
      rfl
    · rw [if_neg hc, List.dropWhile_cons_of_neg hc]
      rfl
  · rw [if_neg hempty, if_neg (by simp [hempty]), List.reverse_append]
    rfl

/-- Trimming takes white space off both ends. -/
theorem exists_eq_trim (t : Text) : ∃ before after, allBlank before = true ∧
    allBlank after = true ∧ t = before ++ (trim t ++ after) := by
  have hblank : ∀ s : Text, allBlank (s.takeWhile isBlank) = true := fun s =>
    List.all_eq_true.mpr fun _ hc => List.mem_takeWhile_imp hc
  refine ⟨t.takeWhile isBlank, ((trimStart t).reverse.takeWhile isBlank).reverse, hblank t, ?_, ?_⟩
  · rw [allBlank, List.all_reverse]
    exact hblank _
  · rw [trim, trimEnd, dropEndWhile, ← List.reverse_append, List.takeWhile_append_dropWhile,
      List.reverse_reverse, trimStart, List.takeWhile_append_dropWhile]

/-! ## Pieces -/

theorem isBlank_of_isBreak {c : Char} (h : isBreak c = true) : isBlank c = true := by
  simp only [isBreak, Bool.or_eq_true, beq_iff_eq] at h
  rcases h with h | h <;> subst h <;> rfl

theorem pieces_break {c : Char} (h : isBreak c = true) (t : Text) :
    pieces (c :: t) = [] :: pieces t := by
  rw [pieces, List.splitOnP_cons_eq_if_modifyHead, if_pos h]
  rfl

theorem pieces_char {c : Char} (h : isBreak c = false) (t : Text) :
    pieces (c :: t) = (pieces t).modifyHead (c :: ·) := by
  rw [pieces, List.splitOnP_cons_eq_if_modifyHead, if_neg (by simp [h])]
  rfl

theorem exists_pieces_eq_cons (t : Text) : ∃ first rest, pieces t = first :: rest :=
  List.exists_cons_of_ne_nil (List.splitOnP_ne_nil isBreak t)

theorem flatten_pieces (t : Text) : (pieces t).flatten = t.filter (!isBreak ·) := by
  induction t with
  | nil => rfl
  | cons c t ih =>
    cases hc : isBreak c with
    | true => rw [pieces_break hc, List.flatten_cons, ih, List.filter_cons_of_neg (by simp [hc])]; rfl
    | false =>
      obtain ⟨first, rest, hpieces⟩ := exists_pieces_eq_cons t
      rw [hpieces] at ih
      rw [pieces_char hc, hpieces, List.filter_cons_of_pos (by simp [hc]), ← ih]
      rfl

/-! ## Empty lines -/

theorem filter_map_of_nil {f : Text → Text} (hf : f [] = []) (ls : List Text) :
    (ls.map f).filter (!·.isEmpty) = ((ls.filter (!·.isEmpty)).map f).filter (!·.isEmpty) := by
  induction ls with
  | nil => rfl
  | cons l ls ih =>
    cases l with
    | nil => simpa [hf] using ih
    | cons c l => simp only [List.map_cons, List.filter_cons, List.isEmpty_cons, ih, Bool.not_false,
        if_true]

theorem flatMap_of_nil {α : Type} {f : Text → List α} (hf : f [] = []) (ls : List Text) :
    ls.flatMap f = (ls.filter (!·.isEmpty)).flatMap f := by
  induction ls with
  | nil => rfl
  | cons l ls ih =>
    cases l with
    | nil => simpa [hf] using ih
    | cons c l => simpa using ih

theorem exists_lines_unifyBreaks (t : Text) : ∃ first ls ps, lines (unifyBreaks t) = first :: ls ∧
    pieces t = first :: ps ∧ ls.filter (!·.isEmpty) = ps.filter (!·.isEmpty) := by
  have hfeed : isBreak '\n' = true := rfl
  have hreturn : isBreak '\r' = true := rfl
  fun_induction unifyBreaks t with
  | case1 => exact ⟨[], [], [], rfl, rfl, rfl⟩
  | case2 t ih =>
    obtain ⟨first, ls, ps, hls, hps, heq⟩ := ih
    refine ⟨[], first :: ls, [] :: first :: ps, ?_, ?_, ?_⟩
    · rw [lines_feed, hls]
    · rw [pieces_break hreturn, pieces_break hfeed, hps]
    · simp only [List.filter_cons, heq, List.isEmpty_nil, Bool.not_true]
      rfl
  | case3 t _ ih =>
    obtain ⟨first, ls, ps, hls, hps, heq⟩ := ih
    refine ⟨[], first :: ls, first :: ps, ?_, ?_, ?_⟩
    · rw [lines_feed, hls]
    · rw [pieces_break hreturn, hps]
    · simp only [List.filter_cons, heq]
  | case4 c t hnl hr ih =>
    obtain ⟨first, ls, ps, hls, hps, heq⟩ := ih
    by_cases hc : c = '\n'
    · subst hc
      refine ⟨[], first :: ls, first :: ps, ?_, ?_, ?_⟩
      · rw [lines_feed, hls]
      · rw [pieces_break hfeed, hps]
      · simp only [List.filter_cons, heq]
    · have hbreak : isBreak c = false := by
        have hr' : c ≠ '\r' := hr
        simp [isBreak, hc, hr']
      refine ⟨c :: first, ls, ps, ?_, ?_, heq⟩
      · rw [lines_cons hc, hls]; rfl
      · rw [pieces_char hbreak, hps]; rfl

/-- Unifying the line breaks only removes empty lines. -/
theorem filter_lines_unifyBreaks (t : Text) :
    (lines (unifyBreaks t)).filter (!·.isEmpty) = (pieces t).filter (!·.isEmpty) := by
  obtain ⟨first, ls, ps, hls, hps, heq⟩ := exists_lines_unifyBreaks t
  rw [hls, hps, List.filter_cons, List.filter_cons, heq]

theorem filter_map_lines {f : Text → Text} (hf : f [] = []) (t : Text) :
    ((lines (unifyBreaks t)).map f).filter (!·.isEmpty) =
      ((pieces t).map f).filter (!·.isEmpty) := by
  rw [filter_map_of_nil hf, filter_lines_unifyBreaks, ← filter_map_of_nil hf]

theorem flatMap_lines {α : Type} {f : Text → List α} (hf : f [] = []) (t : Text) :
    (lines (unifyBreaks t)).flatMap f = (pieces t).flatMap f := by
  rw [flatMap_of_nil hf, filter_lines_unifyBreaks, ← flatMap_of_nil hf]

theorem displayLines_eq (t : Text) : displayLines t = shown (pieces t) := filter_map_lines rfl t

/-! ## Values without white space at their ends -/

theorem shown_cons (l : Text) (ls : List Text) :
    shown (l :: ls) = (if (trim l).isEmpty then [] else [trim l]) ++ shown ls := by
  rw [shown, List.map_cons, List.filter_cons]
  cases (trim l).isEmpty <;> rfl

theorem shown_cons_of_trim {k l : Text} (h : trim k = trim l) (ls : List Text) :
    shown (k :: ls) = shown (l :: ls) := by
  rw [shown_cons, shown_cons, h]

theorem shown_nil_cons (ls : List Text) : shown ([] :: ls) = shown ls := shown_cons [] ls

theorem shown_pieces_blank_append {w : Text} (h : allBlank w = true) (t : Text) :
    shown (pieces (w ++ t)) = shown (pieces t) := by
  induction w with
  | nil => rfl
  | cons c w ih =>
    rw [allBlank, List.all_cons, Bool.and_eq_true] at h
    rw [List.cons_append, ← ih h.2]
    cases hc : isBreak c with
    | true => rw [pieces_break hc, shown_nil_cons]
    | false =>
      obtain ⟨first, rest, hpieces⟩ := exists_pieces_eq_cons (w ++ t)
      rw [pieces_char hc, hpieces, List.modifyHead_cons,
        shown_cons_of_trim (trim_cons_of_blank h.1 first)]

/-- White space after a text goes to its last line, or on lines of its own. -/
theorem exists_pieces_append_blank (t : Text) {w : Text} (h : allBlank w = true) :
    ∃ first rest rest' w', pieces t = first :: rest ∧ pieces (t ++ w) = (first ++ w') :: rest' ∧
      allBlank w' = true ∧ shown rest' = shown rest := by
  induction t with
  | nil =>
    obtain ⟨first, rest, hpieces⟩ := exists_pieces_eq_cons w
    have hflat : ∀ piece ∈ first :: rest, allBlank piece = true := fun piece hp =>
      List.all_eq_true.mpr fun c hc => List.all_eq_true.mp h c <| by
        have hmem : c ∈ (pieces w).flatten := List.mem_flatten.mpr ⟨piece, hpieces ▸ hp, hc⟩
        rw [flatten_pieces] at hmem
        exact (List.mem_filter.mp hmem).1
    refine ⟨[], [], rest, first, rfl, hpieces, hflat first (List.mem_cons_self ..), ?_⟩
    refine List.filter_eq_nil_iff.mpr fun l hl => ?_
    obtain ⟨piece, hp, rfl⟩ := List.mem_map.mp hl
    rw [(trim_eq_nil_iff piece).mpr (hflat piece (List.mem_cons_of_mem _ hp))]
    decide
  | cons c t ih =>
    obtain ⟨first, rest, rest', w', hpieces, happend, hw', hshown⟩ := ih
    rw [List.cons_append]
    cases hc : isBreak c with
    | true =>
      refine ⟨[], first :: rest, (first ++ w') :: rest', [], ?_, ?_, rfl, ?_⟩
      · rw [pieces_break hc, hpieces]
      · rw [pieces_break hc, happend, List.append_nil]
      · rw [shown_cons_of_trim (trim_append_blank first hw'), shown_cons, shown_cons, hshown]
    | false =>
      refine ⟨c :: first, rest, rest', w', ?_, ?_, hw', hshown⟩
      · rw [pieces_char hc, hpieces]; rfl
      · rw [pieces_char hc, happend]; rfl

theorem shown_pieces_append_blank (t : Text) {w : Text} (h : allBlank w = true) :
    shown (pieces (t ++ w)) = shown (pieces t) := by
  obtain ⟨first, rest, rest', w', hpieces, happend, hw', hshown⟩ := exists_pieces_append_blank t h
  rw [hpieces, happend, shown_cons_of_trim (trim_append_blank first hw'), shown_cons, shown_cons,
    hshown]

theorem displayLines_trim (t : Text) : displayLines (trim t) = displayLines t := by
  obtain ⟨before, after, hbefore, hafter, heq⟩ := exists_eq_trim t
  rw [displayLines_eq, displayLines_eq]
  conv => rhs; rw [heq]
  rw [shown_pieces_blank_append hbefore, shown_pieces_append_blank _ hafter]

/-! ## What is shown, without white space -/

section Ink

variable {p : Char → Bool} (h : ∀ c, isBlank c = true → p c = false)
include h

theorem ink_shown (ls : List Text) : (shown ls).flatMap (ink p) = ls.flatMap (ink p) := by
  induction ls with
  | nil => rfl
  | cons l ls ih =>
    have hline : (if (trim l).isEmpty then [] else [trim l]).flatMap (ink p) = ink p l := by
      split
      · rename_i hempty
        rw [List.flatMap_nil, ← (gauge_ink h).trim, ink_of_isEmpty hempty]
      · rw [List.flatMap_singleton, (gauge_ink h).trim]
    rw [shown_cons, List.flatMap_append, List.flatMap_cons, hline, ih]

theorem ink_displayLines (t : Text) : (displayLines t).flatMap (ink p) = ink p t := by
  have hbreaks : (pieces t).flatMap (ink p) = ink p (t.filter (!isBreak ·)) := by
    rw [← flatten_pieces, ← List.flatMap_id', ink_flatMap]
  rw [displayLines_eq, ink_shown h, hbreaks, ink, ink, List.filter_filter]
  refine List.filter_congr fun c _ => ?_
  cases hc : isBreak c with
  | false => simp
  | true => simp [h c (isBlank_of_isBreak hc)]

end Ink

end Text

/-! ## Escaped values -/

namespace Markdown

open Text

namespace Guarded

variable {s t : Text}

theorem isEmpty_eq (h : Guarded s t) : s.isEmpty = t.isEmpty := by
  cases h <;> rfl

theorem trimStart (h : Guarded s t) : Guarded (trimStart s) (trimStart t) := by
  induction h with
  | nil => exact .nil
  | keep c h ih =>
    unfold Text.trimStart at ih ⊢
    by_cases hc : isBlank c = true
    · rwa [List.dropWhile_cons_of_pos hc, List.dropWhile_cons_of_pos hc]
    · rw [List.dropWhile_cons_of_neg hc, List.dropWhile_cons_of_neg hc]
      exact .keep c h
  | guard h => exact .guard h

theorem trimEnd (h : Guarded s t) : Guarded (trimEnd s) (trimEnd t) := by
  induction h with
  | nil => exact .nil
  | keep c h ih =>
    rw [trimEnd_cons, trimEnd_cons, ih.isEmpty_eq]
    split
    · exact .nil
    · exact .keep c ih
  | guard h ih =>
    rw [trimEnd_cons, trimEnd_cons, trimEnd_cons]
    exact .guard ih

theorem trim (h : Guarded s t) : Guarded (trim s) (trim t) := h.trimStart.trimEnd

theorem pieces (h : Guarded s t) : List.Forall₂ Guarded (pieces s) (pieces t) := by
  induction h with
  | nil => exact .cons .nil .nil
  | @keep c s t h ih =>
    obtain ⟨first, rest, hs⟩ := exists_pieces_eq_cons s
    obtain ⟨first', rest', ht⟩ := exists_pieces_eq_cons t
    cases hc : isBreak c with
    | true =>
      rw [pieces_break hc, pieces_break hc]
      exact .cons .nil ih
    | false =>
      rw [hs, ht, List.forall₂_cons] at ih
      rw [pieces_char hc, pieces_char hc, hs, ht]
      exact .cons (.keep c ih.1) ih.2
  | @guard s t h ih =>
    obtain ⟨first, rest, hs⟩ := exists_pieces_eq_cons s
    obtain ⟨first', rest', ht⟩ := exists_pieces_eq_cons t
    rw [hs, ht, List.forall₂_cons] at ih
    rw [pieces_char rfl, pieces_char rfl, pieces_char rfl, hs, ht]
    exact .cons (.guard ih.1) ih.2

end Guarded

theorem forall₂_guarded_filter {ls ks : List Text} (h : List.Forall₂ Guarded ls ks) :
    List.Forall₂ Guarded (ls.filter (!·.isEmpty)) (ks.filter (!·.isEmpty)) :=
  List.rel_filter (fun _ _ hlk => by simp only [hlk.isEmpty_eq]) h

/-- What a value shows that is escaped as a whole. -/
theorem guarded_displayLines (v : Text) :
    List.Forall₂ Guarded (displayLines v) (displayLines (escapeCellLine v)) := by
  rw [escapeCellLine, displayLines_trim, displayLines_eq, displayLines_eq]
  apply forall₂_guarded_filter
  exact List.forall₂_map_left_iff.mpr <| List.forall₂_map_right_iff.mpr <|
    (guarded_escapePipesFrom 0 0 v).pieces.imp fun _ _ h => h.trim

theorem trim_escapeCellLine (l : Text) : trim (escapeCellLine l) = escapeCellLine l := trim_trim _

/-- The lines of a cell in the plain layout, as far as they are not blank. -/
theorem shown_cellLines (v : Text) :
    shown (Table.cellLines v) = ((pieces v).map escapeCellLine).filter (!·.isEmpty) := by
  have hlines : (((lines (unifyBreaks v)).map escapeCellLine).filter (!allBlank ·)) =
      ((lines (unifyBreaks v)).map escapeCellLine).filter (!·.isEmpty) := by
    refine List.filter_congr fun l hl => ?_
    obtain ⟨line, _, rfl⟩ := List.mem_map.mp hl
    rw [Bool.eq_iff_iff, Bool.not_eq_true', Bool.not_eq_true', ← Bool.not_eq_true,
      ← Bool.not_eq_true, ← trim_eq_nil_iff, trim_escapeCellLine, List.isEmpty_iff]
  have htrim : ∀ l ∈ ((lines (unifyBreaks v)).map escapeCellLine).filter (!·.isEmpty),
      trim l = l := fun l hl => by
    obtain ⟨line, _, rfl⟩ := List.mem_map.mp (List.mem_filter.mp hl).1
    exact trim_escapeCellLine line
  rw [← filter_map_lines (f := escapeCellLine) rfl, Table.cellLines, hlines, shown]
  split
  · rename_i hnil
    rw [hnil]
    rfl
  · rw [(List.map_congr_left htrim).trans (List.map_id _)]
    exact List.filter_eq_self.mpr fun l hl => (List.mem_filter.mp hl).2

/-- What a value shows whose lines are escaped one by one. -/
theorem guarded_cellLines (v : Text) :
    List.Forall₂ Guarded (displayLines v) (shown (Table.cellLines v)) := by
  rw [shown_cellLines, displayLines_eq]
  apply forall₂_guarded_filter
  exact List.forall₂_map_left_iff.mpr <| List.forall₂_map_right_iff.mpr <|
    List.forall₂_same.mpr fun l _ => (guarded_escapePipesFrom 0 0 l).trim

end Markdown

end Hypermark
