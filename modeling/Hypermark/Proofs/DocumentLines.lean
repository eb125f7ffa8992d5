import Mathlib.Data.List.DropRight
import Hypermark.Proofs.InlineMarkup
import Hypermark.Proofs.Word

/-!
# The lines of a document

Normalizing works on lines: it unifies the breaks, trims every line, squeezes the blank ones and
drops empty lines at both ends.  Blocks that are joined keep their lines, with an empty line between
each two blocks.

* `lines_joinBlocks`: the lines of blocks put together.
* `normalize_eq_unlines`: the normal form, line by line.
-/

namespace Hypermark

open Text Markdown Inline

/-! ## Cutting -/

namespace Text

theorem lines_append_feed (x y : Text) : lines (x ++ '\n' :: y) = lines x ++ lines y :=
  List.splitOn_append_cons_self x y

theorem lines_of_no_feed {t : Text} (h : '\n' ∉ t) : lines t = [t] := List.splitOn_eq_singleton h

theorem lines_cons {c : Char} (hc : c ≠ '\n') (t : Text) :
    lines (c :: t) = (lines t).modifyHead (c :: ·) := by
  rw [lines, List.splitOn_cons_eq_if_modifyHead, if_neg (by simpa using hc)]
  rfl

theorem lines_feed (t : Text) : lines ('\n' :: t) = [] :: lines t := lines_append_feed [] t

theorem no_feed_of_mem_lines {t l : Text} (h : l ∈ lines t) : '\n' ∉ l := by
  induction t generalizing l with
  | nil =>
    rw [lines_of_no_feed List.not_mem_nil, List.mem_singleton] at h
    rw [h]
    exact List.not_mem_nil
  | cons c t ih =>
    by_cases hc : c = '\n'
    · rw [hc, lines_feed, List.mem_cons] at h
      rcases h with rfl | h
      · exact List.not_mem_nil
      · exact ih h
    · rw [lines_cons hc] at h
      cases hlines : lines t with
      | nil =>
        rw [hlines] at h
        cases h
      | cons k ks =>
        rw [hlines] at h ih
        rcases List.mem_cons.mp h with rfl | h
        · rw [List.mem_cons, not_or]
          exact ⟨Ne.symm hc, ih (List.mem_cons_self ..)⟩
        · exact ih (List.mem_cons_of_mem _ h)

/-- What is in no line is not in the text, but for the line feed. -/
theorem not_mem_of_lines {t : Text} {c : Char} (hc : c ≠ '\n') (h : ∀ l ∈ lines t, c ∉ l) :
    c ∉ t := by
  intro hmem
  rw [← unlines_lines t] at hmem
  have hne : ∀ d ∈ unlines (lines t), d ≠ c := by
    refine forall_mem_intercalate ?_ fun l hl d hd => ne_of_mem_of_not_mem hd (h l hl)
    exact (List.forall_mem_singleton ..).mpr hc.symm
  exact hne c hmem rfl

theorem exists_first_line {c : Char} (hc : c ≠ '\n') (t : Text) :
    ∃ l rest, lines (c :: t) = l :: rest ∧ c ∈ l := by
  rw [lines_cons hc]
  cases hlines : lines t with
  | nil => exact absurd hlines (List.splitOn_ne_nil '\n' t)
  | cons l rest => exact ⟨c :: l, rest, rfl, List.mem_cons_self ..⟩

theorem exists_last_line {c : Char} (hc : c ≠ '\n') (t : Text) :
    ∃ init l, lines (t ++ [c]) = init ++ [l] ∧ c ∈ l := by
  induction t with
  | nil => exact ⟨[], [c], lines_of_no_feed (by simpa using Ne.symm hc), List.mem_singleton_self c⟩
  | cons d t ih =>
    obtain ⟨init, l, hlines, hl⟩ := ih
    rw [List.cons_append]
    by_cases hd : d = '\n'
    · rw [hd, lines_feed, hlines]
      exact ⟨[] :: init, l, rfl, hl⟩
    · rw [lines_cons hd, hlines]
      cases init with
      | nil => exact ⟨[], d :: l, rfl, List.mem_cons_of_mem _ hl⟩
      | cons k init => exact ⟨(d :: k) :: init, l, rfl, hl⟩

/-! ## Breaks -/

theorem unifyBreaks_cons {c : Char} (hc : c ≠ '\r') (t : Text) :
    unifyBreaks (c :: t) = c :: unifyBreaks t := by
  rw [unifyBreaks]
  · exact fun _ h => absurd h hc
  · exact hc

theorem unifyBreaks_of_no_return {t : Text} (h : '\r' ∉ t) : unifyBreaks t = t := by
  induction t with
  | nil => rfl
  | cons c t ih =>
    rw [List.mem_cons, not_or] at h
    rw [unifyBreaks_cons (Ne.symm h.1), ih h.2]

end Text

theorem ne_feed_of_not_isSpace {c : Char} (h : isSpace c = false) : c ≠ '\n' := by
  rintro rfl
  cases h

theorem ne_return_of_not_isSpace {c : Char} (h : isSpace c = false) : c ≠ '\r' := by
  rintro rfl
  cases h

theorem unifyBreaks_append_feed {t : Text} (h : Solid t) (x : Text) :
    unifyBreaks (t ++ '\n' :: x) = unifyBreaks t ++ '\n' :: unifyBreaks x := by
  obtain ⟨s, c, rfl, hc⟩ := h.ends
  have hfeed := ne_feed_of_not_isSpace hc
  have hreturn := ne_return_of_not_isSpace hc
  rw [List.append_assoc, List.singleton_append, unifyBreaks_append s (by simpa using hfeed),
    unifyBreaks_append s (by simpa using hfeed), unifyBreaks_cons hreturn,
    unifyBreaks_cons hreturn, unifyBreaks_cons (by decide), List.append_assoc]
  rfl

theorem solid_unifyBreaks {t : Text} (h : Solid t) : Solid (unifyBreaks t) := by
  constructor
  · obtain ⟨c, s, rfl, hc⟩ := h.starts
    exact ⟨c, unifyBreaks s, unifyBreaks_cons (ne_return_of_not_isSpace hc) s, hc⟩
  · obtain ⟨s, c, rfl, hc⟩ := h.ends
    refine ⟨unifyBreaks s, c, ?_, hc⟩
    rw [unifyBreaks_append s (by simpa using ne_feed_of_not_isSpace hc),
      unifyBreaks_cons (ne_return_of_not_isSpace hc)]
    rfl

/-- The lines of blocks put together. -/
theorem lines_joinBlocks {part : Text} {parts : List Text} (h : ∀ t ∈ part :: parts, Solid t) :
    lines (unifyBreaks (joinBlocks (part :: parts))) =
      [[]].intercalate ((part :: parts).map fun t => lines (unifyBreaks t)) := by
  induction parts generalizing part with
  | nil =>
    rw [joinBlocks, List.intercalate_singleton, List.map_singleton, List.intercalate_singleton]
  | cons next parts ih =>
    rw [List.forall_mem_cons] at h
    have hjoin : joinBlocks (part :: next :: parts) =
        part ++ '\n' :: '\n' :: joinBlocks (next :: parts) := by
      rw [joinBlocks, List.intercalate_cons_cons, List.append_assoc]
      rfl
    rw [hjoin, unifyBreaks_append_feed h.1, unifyBreaks_cons (by decide), lines_append_feed,
      lines_feed, ih h.2]
    simp only [List.map_cons]
    rw [List.intercalate_cons_cons, List.append_assoc]
    rfl

/-! ## Normal form -/

theorem mem_of_mem_trimLine {l : Text} {c : Char} (h : c ∈ trimLine l) : c ∈ l :=
  (List.rdropWhile_prefix _ l).subset h

theorem trimLine_ne_nil {l : Text} {c : Char} (h : c ∈ l) (hc : isSpace c = false) :
    trimLine l ≠ [] := by
  intro hnil
  rw [trimLine, dropEndWhile_eq_nil_iff, List.all_eq_true] at hnil
  have hspace := hnil c h
  rw [Bool.or_eq_true, beq_iff_eq, beq_iff_eq] at hspace
  rcases hspace with rfl | rfl
  · cases hc
  · cases hc

theorem unlines_cons_cons (l m : Text) (ls : List Text) :
    unlines (l :: m :: ls) = l ++ '\n' :: unlines (m :: ls) := by
  rw [unlines, List.intercalate_cons_cons, List.append_assoc]
  rfl

theorem unlines_concat {ls : List Text} (hne : ls ≠ []) (l : Text) :
    unlines (ls ++ [l]) = unlines ls ++ '\n' :: l := by
  induction ls with
  | nil => exact absurd rfl hne
  | cons k ls ih =>
    cases ls with
    | nil =>
      rw [List.singleton_append, unlines_cons_cons, unlines, unlines, List.intercalate_singleton,
        List.intercalate_singleton]
    | cons m ls =>
      rw [List.cons_append, List.cons_append, unlines_cons_cons, ← List.cons_append,
        ih (List.cons_ne_nil m ls), unlines_cons_cons, List.append_assoc]
      rfl

/-- Lines that follow each other stand in the text as one piece. -/
theorem unlines_infix {piece ls : List Text} (h : piece <:+: ls) : unlines piece <:+: unlines ls := by
  obtain ⟨before, after, rfl⟩ := h
  have hprefix : unlines piece <+: unlines (piece ++ after) := by
    induction after using List.reverseRecOn with
    | nil => exact ⟨[], by rw [List.append_nil, List.append_nil]⟩
    | append_singleton after l ih =>
      by_cases hne : piece ++ after = []
      · rw [(List.append_eq_nil_iff.mp hne).1]
        exact List.nil_prefix
      · rw [← List.append_assoc, unlines_concat hne]
        exact ih.trans (List.prefix_append _ _)
  have hsuffix : unlines (piece ++ after) <:+ unlines (before ++ (piece ++ after)) := by
    induction before with
    | nil => exact List.suffix_rfl
    | cons l before ih =>
      cases hrest : before ++ (piece ++ after) with
      | nil =>
        rw [(List.append_eq_nil_iff.mp hrest).2]
        exact List.nil_suffix
      | cons m rest =>
        rw [hrest] at ih
        rw [List.cons_append, hrest, unlines_cons_cons]
        exact ih.trans ((List.suffix_cons '\n' _).trans (List.suffix_append _ _))
  rw [List.append_assoc]
  exact hprefix.isInfix.trans hsuffix.isInfix

theorem dropWhile_unlines {ls : List Text} (h : ∀ l ∈ ls, '\n' ∉ l) :
    (unlines ls).dropWhile isLineFeed = unlines (ls.dropWhile List.isEmpty) := by
  induction ls with
  | nil => rfl
  | cons l ls ih =>
    rw [List.forall_mem_cons] at h
    cases l with
    | nil =>
      rw [List.dropWhile_cons_of_pos (by rfl)]
      cases ls with
      | nil => rfl
      | cons m ls =>
        rw [unlines_cons_cons, List.nil_append, List.dropWhile_cons_of_pos (by rfl)]
        exact ih h.2
    | cons c l =>
      have hc : isLineFeed c = false := by
        rw [isLineFeed, beq_eq_false_iff_ne]
        exact fun he => h.1 (by rw [he]; exact List.mem_cons_self ..)
      have hcons : ∃ rest, unlines ((c :: l) :: ls) = c :: rest := by
        cases ls with
        | nil => exact ⟨l, List.intercalate_singleton ..⟩
        | cons m ls => exact ⟨l ++ '\n' :: unlines (m :: ls), unlines_cons_cons ..⟩
      obtain ⟨rest, hrest⟩ := hcons
      rw [List.dropWhile_cons_of_neg (by simp), hrest, List.dropWhile_cons_of_neg (by simp [hc])]

theorem dropEndWhile_unlines {ls : List Text} (h : ∀ l ∈ ls, '\n' ∉ l) :
    dropEndWhile isLineFeed (unlines ls) = unlines (ls.rdropWhile List.isEmpty) := by
  induction ls using List.reverseRecOn with
  | nil => rfl
  | append_singleton ls l ih =>
    rw [List.forall_mem_append] at h
    rcases List.eq_nil_or_concat' l with rfl | ⟨init, c, rfl⟩
    · rw [List.rdropWhile_concat_pos _ _ _ (by rfl)]
      by_cases hne : ls = []
      · rw [hne]
        rfl
      · rw [unlines_concat hne, ← ih h.1]
        exact List.rdropWhile_concat_pos isLineFeed _ _ rfl
    · have hc : isLineFeed c = false := by
        rw [isLineFeed, beq_eq_false_iff_ne]
        exact fun he => h.2 _ (List.mem_singleton_self _) (by rw [he]; simp)
      have hconcat : ∃ rest, unlines (ls ++ [init ++ [c]]) = rest ++ [c] := by
        by_cases hne : ls = []
        · rw [hne]
          exact ⟨init, List.intercalate_singleton ..⟩
        · exact ⟨unlines ls ++ '\n' :: init, by rw [unlines_concat hne]; simp⟩
      obtain ⟨rest, hrest⟩ := hconcat
      rw [List.rdropWhile_concat_neg _ _ _ (by simp), hrest]
      exact List.rdropWhile_concat_neg isLineFeed _ _ (by simp [hc])

/-- The normal form, line by line. -/
theorem normalize_eq_unlines (most : Nat) (t : Text) :
    Markdown.normalize most t =
      unlines (((squeezeFrom most none 0 ((lines (unifyBreaks t)).map trimLine)).dropWhile
        List.isEmpty).rdropWhile List.isEmpty) := by
  have htrimmed : ∀ l ∈ (lines (unifyBreaks t)).map trimLine, '\n' ∉ l := by
    intro l hl hfeed
    obtain ⟨k, hk, rfl⟩ := List.mem_map.mp hl
    exact no_feed_of_mem_lines hk (mem_of_mem_trimLine hfeed)
  have hne : (lines (unifyBreaks t)).map trimLine ≠ [] := by
    rw [ne_eq, List.map_eq_nil_iff]
    exact List.splitOn_ne_nil '\n' _
  have hsqueezed : ∀ l ∈ squeezeFrom most none 0 ((lines (unifyBreaks t)).map trimLine),
      '\n' ∉ l := fun l hl => htrimmed l ((squeezeFrom_sublist ..).subset hl)
  rw [Markdown.normalize, squeeze, lines_unlines hne htrimmed, dropWhile_unlines hsqueezed,
    dropEndWhile_unlines fun l hl => hsqueezed l ((List.dropWhile_sublist _).subset hl)]

end Hypermark
