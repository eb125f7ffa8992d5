import Hypermark.Proofs.BlankRuns
import Hypermark.Proofs.DocumentLines

/-!
# The normal form of a text

A text is in normal form if the line feed is its only line break, no line ends in a space or a tab,
it neither starts nor ends with a line feed and, as its lines are scanned for fences, not too many
blank ones follow each other outside of code.  Normalizing brings every text into normal form and
leaves a text alone that has it already.  What it leaves out is blank lines outside of code, and
empty lines at both ends; so a blank line within a fence may be lost only if the fence is never
closed.

* `thinned_squeezeFrom`: squeezing leaves out blank lines outside of code only, and what it leaves
  is scanned as it was before.
* `gapsWithin_squeezeFrom`, `squeezeFrom_of_gapsWithin`: it leaves out enough of them, and no more.
* `normalize_canonical`: what normalizing does to a text.
-/

namespace Hypermark.Markdown

open Text

/-! ## Scanned lines -/

/-- Lines with the marks that the scan for fences gives them: a line is code if a fence is open
before it or after it. -/
def scanned (fence : Option Fence) : List Text → List Line
  | [] => []
  | l :: ls =>
    ⟨l, fence.isSome || (Fence.after fence l).isSome⟩ :: scanned (Fence.after fence l) ls

/-- The lines that are not blank or stand in a fence that a later line closes. -/
def lasting (fence : Option Fence) : List Text → List Text
  | [] => []
  | l :: ls =>
    (if !allBlank l || fence.any (fun f => ls.any f.closedBy) then [l] else []) ++
      lasting (Fence.after fence l) ls

/-- The lines of a text before anything is left out: without spaces and tabs at their ends. -/
def trimmedLines (t : Text) : List Text := (lines (unifyBreaks t)).map trimLine

/-- The normal form of texts in which at most `most` blank lines follow each other. -/
structure IsNormal (most : Nat) (t : Text) : Prop where
  noReturn : '\r' ∉ t
  trimmed : ∀ l ∈ lines t, ∀ c ∈ l.getLast?, c ≠ ' ' ∧ c ≠ '\t'
  noFirstFeed : t.head? ≠ some '\n'
  noLastFeed : t.getLast? ≠ some '\n'
  gaps : GapsWithin most (scanned none (lines t))

theorem scanned_append (fence : Option Fence) (xs ys : List Text) :
    scanned fence (xs ++ ys) = scanned fence xs ++ scanned (Fence.afterAll fence xs) ys := by
  induction xs generalizing fence with
  | nil => rfl
  | cons x xs ih =>
    rw [List.cons_append, scanned, scanned, ih]
    rfl

theorem text_of_mem_scanned {fence : Option Fence} {ls : List Text} {l : Line}
    (h : l ∈ scanned fence ls) : l.text ∈ ls := by
  induction ls generalizing fence with
  | nil => cases h
  | cons k ls ih =>
    rcases List.mem_cons.mp h with rfl | h
    · exact List.mem_cons_self ..
    · exact List.mem_cons_of_mem _ (ih h)

/-! ## One step of squeezing -/

/-- A line that is no gap is kept, and starts the count of blank lines anew. -/
theorem squeezeFrom_keep (most : Int) {fence : Option Fence} (count : Nat) {l : Text}
    (h : fence.isSome = true ∨ allBlank l = false) (rest : List Text) :
    squeezeFrom most fence count (l :: rest) =
      l :: squeezeFrom most (Fence.after fence l) 0 rest := by
  simp only [squeezeFrom]
  split
  · rfl
  · rename_i hcode
    rw [Bool.or_eq_true, not_or, Bool.not_eq_true, Bool.not_eq_true] at hcode
    rcases h with h | h
    · rw [h] at hcode
      cases hcode.1
    · have hnext := Option.isNone_iff_eq_none.mp (Option.isSome_eq_false_iff.mp hcode.2)
      rw [h, hnext]
      rfl

/-- A gap is kept as long as the count allows it. -/
theorem squeezeFrom_gap (most count : Nat) {l : Text} (h : allBlank l = true) (rest : List Text) :
    squeezeFrom most none count (l :: rest) =
      (if count < most then [l] else []) ++ squeezeFrom most none (count + 1) rest := by
  rw [squeezeFrom, Fence.after_of_allBlank h, h]
  simp only [Option.isSome_none, Bool.or_false, Bool.false_eq_true, if_false, Bool.not_true]
  by_cases hcount : count < most
  · rw [if_pos (by omega), if_pos hcount]
    rfl
  · rw [if_neg (by omega), if_neg hcount]
    rfl

theorem gap_or_kept (fence : Option Fence) (l : Text) :
    (fence = none ∧ allBlank l = true) ∨ (fence.isSome = true ∨ allBlank l = false) := by
  cases fence with
  | some f => exact .inr (.inl rfl)
  | none =>
    cases h : allBlank l with
    | true => exact .inl ⟨rfl, rfl⟩
    | false => exact .inr (.inr rfl)

theorem not_isGap_of_kept {fence : Option Fence} {l : Text}
    (h : fence.isSome = true ∨ allBlank l = false) (b : Bool) :
    (⟨l, fence.isSome || b⟩ : Line).isGap = false := by
  unfold Line.isGap Line.isBlank
  rcases h with h | h
  · rw [h]
    rfl
  · rw [h, Bool.and_false]

theorem isGap_of_blank_outside {l : Text} (h : allBlank l = true) :
    (⟨l, (none : Option Fence).isSome || (Fence.after none l).isSome⟩ : Line).isGap = true := by
  rw [Fence.after_of_allBlank h]
  exact h

/-! ## What is left out -/

/-- Squeezing leaves out blank lines outside of code, and the other lines are scanned as before. -/
theorem thinned_squeezeFrom (most : Nat) (fence : Option Fence) (count : Nat) (ls : List Text) :
    Thinned (scanned fence ls) (scanned fence (squeezeFrom most fence count ls)) := by
  induction ls generalizing fence count with
  | nil => exact .nil
  | cons l ls ih =>
    rcases gap_or_kept fence l with ⟨rfl, hblank⟩ | hkept
    · have hafter := Fence.after_of_allBlank hblank none
      have hgap := isGap_of_blank_outside hblank
      rw [squeezeFrom_gap most count hblank]
      split
      · rw [List.singleton_append, scanned, scanned, hafter]
        exact .keep (ih none (count + 1))
      · rw [List.nil_append, scanned]
        refine .leave hgap ?_
        rw [hafter]
        exact ih none (count + 1)
    · rw [squeezeFrom_keep most count hkept]
      exact .keep (ih _ 0)

/-- After `blanks` gaps squeezing keeps so few of the next ones that there are never too many. -/
theorem gapsWithin_squeezeFrom {most : Nat} (blanks : List Line) (count : Nat)
    (hgap : ∀ b ∈ blanks, b.isGap = true) (hcount : blanks.length = min count most)
    (fence : Option Fence) (ls : List Text) :
    GapsWithin most (blanks ++ scanned fence (squeezeFrom most fence count ls)) := by
  induction ls generalizing fence blanks count with
  | nil =>
    refine gapsWithin_of_length_le ?_
    rw [squeezeFrom, scanned, List.append_nil]
    omega
  | cons l ls ih =>
    rcases gap_or_kept fence l with ⟨rfl, hblank⟩ | hkept
    · rw [squeezeFrom_gap most count hblank]
      split
      · rename_i hlt
        -- the gap that is kept joins those before it
        rw [List.singleton_append, scanned, List.append_cons, Fence.after_of_allBlank hblank]
        refine ih _ (count + 1) (fun b hb => ?_) ?_ none
        · rcases List.mem_append.mp hb with hb | hb
          · exact hgap b hb
          · rw [List.mem_singleton.mp hb]
            exact hblank
        · rw [List.length_append, List.length_singleton]
          omega
      · rw [List.nil_append]
        exact ih blanks (count + 1) hgap (by omega) none
    · rw [squeezeFrom_keep most count hkept, scanned,
        gapsWithin_append_cons (not_isGap_of_kept hkept _)]
      constructor
      · exact gapsWithin_of_length_le (by omega)
      · exact ih [] 0 (List.forall_mem_nil _) (Nat.zero_min _).symm _

/-- Where there are never too many gaps squeezing leaves nothing out. -/
theorem squeezeFrom_of_gapsWithin {most : Nat} (blanks : List Line)
    (hgap : ∀ b ∈ blanks, b.isGap = true) (fence : Option Fence) (ls : List Text)
    (h : GapsWithin most (blanks ++ scanned fence ls)) :
    squeezeFrom most fence blanks.length ls = ls := by
  induction ls generalizing fence blanks with
  | nil => rfl
  | cons l ls ih =>
    rw [scanned] at h
    rcases gap_or_kept fence l with ⟨rfl, hblank⟩ | hkept
    · rw [List.append_cons] at h
      have hgaps : ∀ b ∈ blanks ++ [⟨l, (none : Option Fence).isSome || (Fence.after none l).isSome⟩],
          b.isGap = true :=
        List.forall_mem_append.mpr
          ⟨hgap, (List.forall_mem_singleton ..).mpr (isGap_of_blank_outside hblank)⟩
      have hlength := h _ (List.prefix_append _ _).isInfix hgaps
      have hrest := ih _ hgaps _ h
      rw [List.length_append, List.length_singleton] at hlength hrest
      rw [Fence.after_of_allBlank hblank] at hrest
      rw [squeezeFrom_gap most _ hblank, if_pos (by omega), hrest, List.singleton_append]
    · rw [gapsWithin_append_cons (not_isGap_of_kept hkept _)] at h
      have hrest := ih [] (List.forall_mem_nil _) _ h.2
      rw [squeezeFrom_keep _ _ hkept]
      exact congrArg (l :: ·) hrest

/-! ## Lines that last -/

theorem lasting_sublist (fence : Option Fence) (ls : List Text) :
    (lasting fence ls).Sublist ls := by
  induction ls generalizing fence with
  | nil => exact List.Sublist.refl _
  | cons l ls ih =>
    rw [lasting]
    split
    · exact (ih _).cons_cons l
    · exact (ih _).cons l

theorem closedBy_of_allBlank {l : Text} (h : allBlank l = true) (f : Fence) :
    f.closedBy l = false := by
  have hafter := Fence.after_of_allBlank h (some f)
  rw [Fence.after] at hafter
  rw [← Bool.not_eq_true]
  intro hcloses
  rw [if_pos hcloses] at hafter
  cases hafter

/-- No closing line is squeezed out. -/
theorem any_closedBy_squeezeFrom (f : Fence) (most : Nat) (fence : Option Fence) (count : Nat)
    (ls : List Text) : (squeezeFrom most fence count ls).any f.closedBy = ls.any f.closedBy := by
  induction ls generalizing fence count with
  | nil => rfl
  | cons l ls ih =>
    rcases gap_or_kept fence l with ⟨rfl, hblank⟩ | hkept
    · rw [squeezeFrom_gap most count hblank, List.any_append, ih, List.any_cons,
        closedBy_of_allBlank hblank]
      split
      · rw [List.any_cons, closedBy_of_allBlank hblank]
        rfl
      · rfl
    · rw [squeezeFrom_keep most count hkept, List.any_cons, ih, List.any_cons]

/-- A blank line outside of fences does not last. -/
theorem lasting_gap {l : Text} (h : allBlank l = true) (ls : List Text) :
    lasting none (l :: ls) = lasting none ls := by
  rw [lasting, Fence.after_of_allBlank h, h]
  rfl

theorem lasting_squeezeFrom (most : Nat) (fence : Option Fence) (count : Nat) (ls : List Text) :
    lasting fence (squeezeFrom most fence count ls) = lasting fence ls := by
  induction ls generalizing fence count with
  | nil => rfl
  | cons l ls ih =>
    rcases gap_or_kept fence l with ⟨rfl, hblank⟩ | hkept
    · rw [squeezeFrom_gap most count hblank, lasting_gap hblank]
      split
      · rw [List.singleton_append, lasting_gap hblank, ih]
      · rw [List.nil_append, ih]
    · rw [squeezeFrom_keep most count hkept, lasting, lasting, ih]
      simp only [any_closedBy_squeezeFrom]

theorem any_closedBy_of_allBlank {ls : List Text} (h : ∀ l ∈ ls, allBlank l = true) (f : Fence) :
    ls.any f.closedBy = false := by
  rw [List.any_eq_false]
  intro l hl
  rw [closedBy_of_allBlank (h l hl)]
  exact Bool.false_ne_true

/-- Blank lines at the end do not last, not even in a fence, and nothing lasts because of them. -/
theorem lasting_append_blank (fence : Option Fence) (ls : List Text) {blanks : List Text}
    (h : ∀ l ∈ blanks, allBlank l = true) : lasting fence (ls ++ blanks) = lasting fence ls := by
  induction ls generalizing fence with
  | nil =>
    rw [List.nil_append]
    induction blanks generalizing fence with
    | nil => rfl
    | cons b blanks ih =>
      rw [List.forall_mem_cons] at h
      have hrest : lasting (Fence.after fence b) blanks = [] := ih h.2 _
      cases fence with
      | none => simp only [lasting, hrest, h.1, Option.any_none, Bool.not_true, Bool.or_false,
          Bool.false_eq_true, if_false, List.append_nil]
      | some f => simp only [lasting, hrest, h.1, Option.any_some, any_closedBy_of_allBlank h.2,
          Bool.not_true, Bool.or_false, Bool.false_eq_true, if_false, List.append_nil]
  | cons l ls ih =>
    rw [List.cons_append, lasting, ih, lasting]
    simp only [List.any_append, any_closedBy_of_allBlank h, Bool.or_false]

theorem lasting_blank_append {blanks : List Text} (h : ∀ l ∈ blanks, allBlank l = true)
    (ls : List Text) : lasting none (blanks ++ ls) = lasting none ls := by
  induction blanks with
  | nil => rfl
  | cons b blanks ih =>
    rw [List.forall_mem_cons] at h
    rw [List.cons_append, lasting_gap h.1, ih h.2]

/-! ## Both ends -/

theorem squeezeFrom_ne_nil {most : Nat} (hmost : 1 ≤ most) (fence : Option Fence) {ls : List Text}
    (h : ls ≠ []) : squeezeFrom most fence 0 ls ≠ [] := by
  obtain ⟨l, rest, rfl⟩ := List.exists_cons_of_ne_nil h
  rcases gap_or_kept fence l with ⟨rfl, hblank⟩ | hkept
  · rw [squeezeFrom_gap most 0 hblank, if_pos (show 0 < most from hmost)]
    exact List.cons_ne_nil _ _
  · rw [squeezeFrom_keep most 0 hkept]
    exact List.cons_ne_nil _ _

/-- Lines without the empty ones at both ends, written as a text and cut again: if all of them are
empty, one is left. -/
theorem exists_eq_append_lines {ls : List Text} (hne : ls ≠ []) (hfeed : ∀ l ∈ ls, '\n' ∉ l) :
    ∃ front back, (∀ l ∈ front ++ back, l = []) ∧
      ls = front ++ lines (unlines ((ls.dropWhile List.isEmpty).rdropWhile List.isEmpty)) ++ back := by
  by_cases hempty : ∀ l ∈ ls, l = []
  · obtain ⟨l, rest, rfl⟩ := List.exists_cons_of_ne_nil hne
    have hdrop : (l :: rest).dropWhile List.isEmpty = [] := by
      rw [List.dropWhile_eq_nil_iff]
      intro k hk
      rw [List.isEmpty_iff]
      exact hempty k hk
    rw [List.forall_mem_cons] at hempty
    refine ⟨[], rest, hempty.2, ?_⟩
    rw [hdrop, List.nil_append, hempty.1]
    rfl
  · have hkept : (ls.dropWhile List.isEmpty).rdropWhile List.isEmpty ≠ [] := by
      intro hnil
      refine hempty fun l hl => ?_
      rw [← List.takeWhile_append_dropWhile (p := List.isEmpty) (l := ls), List.mem_append] at hl
      rcases hl with hl | hl
      · exact List.isEmpty_iff.mp (List.mem_takeWhile_imp hl)
      · exact List.isEmpty_iff.mp (List.rdropWhile_eq_nil_iff.mp hnil l hl)
    have hsub : ∀ l ∈ (ls.dropWhile List.isEmpty).rdropWhile List.isEmpty, '\n' ∉ l := fun l hl =>
      hfeed l ((List.dropWhile_sublist _).subset ((List.rdropWhile_prefix _ _).subset hl))
    refine ⟨ls.takeWhile List.isEmpty, (ls.dropWhile List.isEmpty).rtakeWhile List.isEmpty, ?_, ?_⟩
    · refine List.forall_mem_append.mpr ⟨fun l hl => ?_, fun l hl => ?_⟩
      · exact List.isEmpty_iff.mp (List.mem_takeWhile_imp hl)
      · exact List.isEmpty_iff.mp (List.mem_rtakeWhile_imp hl)
    · rw [lines_unlines hkept hsub, List.append_assoc, List.rdropWhile_append_rtakeWhile,
        List.takeWhile_append_dropWhile]

theorem head?_ne_of_dropWhile_eq {t : Text} (h : t.dropWhile isLineFeed = t) :
    t.head? ≠ some '\n' := by
  intro hhead
  obtain ⟨rest, rfl⟩ := List.head?_eq_some_iff.mp hhead
  have hlength := congrArg List.length h
  rw [List.dropWhile_cons_of_pos (by rfl), List.length_cons] at hlength
  have hle := (List.dropWhile_sublist isLineFeed (l := rest)).length_le
  omega

theorem dropWhile_of_head? {p : Char → Bool} {t : Text}
    (h : ∀ c, t.head? = some c → p c = false) : t.dropWhile p = t := by
  cases t with
  | nil => rfl
  | cons c t => rw [List.dropWhile_cons_of_neg (by rw [h c rfl]; exact Bool.false_ne_true)]

theorem no_feed_of_mem_trimmedLines {t l : Text} (h : l ∈ trimmedLines t) : '\n' ∉ l := by
  obtain ⟨k, hk, rfl⟩ := List.mem_map.mp h
  exact fun hfeed => no_feed_of_mem_lines hk (mem_of_mem_trimLine hfeed)

theorem trimmedLines_ne_nil (t : Text) : trimmedLines t ≠ [] := by
  rw [trimmedLines, ne_eq, List.map_eq_nil_iff]
  exact List.splitOn_ne_nil '\n' _

section Normalize

variable {most : Nat} (hmost : 1 ≤ most) (t : Text)
include hmost

/-- The squeezed lines of a text are those of its normal form between empty ones. -/
theorem exists_squeezeFrom_eq : ∃ front back, (∀ l ∈ front ++ back, l = []) ∧
    squeezeFrom most none 0 (trimmedLines t) =
      front ++ lines (normalize most t) ++ back := by
  have hfeed : ∀ l ∈ squeezeFrom most none 0 (trimmedLines t), '\n' ∉ l := fun l hl =>
    no_feed_of_mem_trimmedLines ((squeezeFrom_sublist ..).subset hl)
  rw [normalize_eq_unlines]
  exact exists_eq_append_lines (squeezeFrom_ne_nil hmost none (trimmedLines_ne_nil t)) hfeed

theorem mem_trimmedLines_of_mem_lines {l : Text} (h : l ∈ lines (normalize most t)) :
    l ∈ trimmedLines t := by
  obtain ⟨front, back, _, hsplit⟩ := exists_squeezeFrom_eq hmost t
  refine (squeezeFrom_sublist most none 0 _).subset ?_
  rw [hsplit]
  exact List.mem_append_left _ (List.mem_append_right _ h)

/-- Normalizing brings every text into normal form. -/
theorem isNormal_normalize : IsNormal most (normalize most t) := by
  constructor
  · intro hreturn
    refine not_mem_of_lines (c := '\r') (by decide) (fun l hl hmem => ?_) hreturn
    obtain ⟨k, hk, rfl⟩ := List.mem_map.mp (mem_trimmedLines_of_mem_lines hmost t hl)
    exact not_mem_unifyBreaks t ((infix_of_mem_lines hk).subset (mem_of_mem_trimLine hmem))
  · intro l hl c hc
    obtain ⟨k, _, rfl⟩ := List.mem_map.mp (mem_trimmedLines_of_mem_lines hmost t hl)
    have hnot := getLast?_dropEndWhile hc
    rw [Bool.or_eq_false_iff, beq_eq_false_iff_ne, beq_eq_false_iff_ne] at hnot
    exact hnot
  · exact head?_ne_of_dropWhile_eq (dropWhile_eq_self_of_isPrefix
      (List.rdropWhile_prefix isLineFeed _) (List.dropWhile_idempotent isLineFeed _))
  · intro hlast
    have hnot := getLast?_dropEndWhile (p := isLineFeed) hlast
    cases hnot
  · obtain ⟨front, back, hempty, hsplit⟩ := exists_squeezeFrom_eq hmost t
    rw [List.forall_mem_append] at hempty
    have hwithin : GapsWithin most
        ([] ++ scanned none (squeezeFrom most none 0 (trimmedLines t))) :=
      gapsWithin_squeezeFrom [] 0 (List.forall_mem_nil _) (Nat.zero_min _).symm none _
    rw [hsplit, List.nil_append, scanned_append, scanned_append,
      Fence.afterAll_of_allBlank (fun l hl => by rw [hempty.1 l hl]; rfl)] at hwithin
    exact fun run hrun => hwithin run (hrun.trans ⟨_, _, rfl⟩)

end Normalize

/-- A text in normal form is left as it is. -/
theorem normalize_of_isNormal {most : Nat} {t : Text} (h : IsNormal most t) :
    normalize most t = t := by
  have htrimmed : (lines t).map trimLine = lines t := by
    conv_rhs => rw [← List.map_id (lines t)]
    refine List.map_congr_left fun l hl => dropEndWhile_of_getLast? fun c hc => ?_
    rw [Bool.or_eq_false_iff, beq_eq_false_iff_ne, beq_eq_false_iff_ne]
    exact h.trimmed l hl c hc
  have hsqueezed : squeezeFrom most none 0 (lines t) = lines t :=
    squeezeFrom_of_gapsWithin [] (List.forall_mem_nil _) none (lines t) h.gaps
  have hfeed : ∀ c, c ≠ '\n' → isLineFeed c = false := fun c hc => beq_eq_false_iff_ne.mpr hc
  have hfront : t.dropWhile isLineFeed = t := by
    refine dropWhile_of_head? fun c hc => hfeed c ?_
    rintro rfl
    exact h.noFirstFeed hc
  have hback : dropEndWhile isLineFeed t = t := by
    refine dropEndWhile_of_getLast? fun c hc => hfeed c ?_
    rintro rfl
    exact h.noLastFeed hc
  simp only [normalize]
  rw [unifyBreaks_of_no_return h.noReturn, htrimmed, unlines_lines, squeeze, hsqueezed,
    unlines_lines, hfront, hback]

/-- Normalizing computes a normal form, and computing it again changes nothing.  It leaves out
blank lines outside of code, as the fences of the text are scanned, and empty lines at both ends;
all lines that are not blank or stand in a closed fence are kept in their order. -/
theorem normalize_canonical {most : Nat} (hmost : 1 ≤ most) (t : Text) :
    IsNormal most (normalize most t) ∧
    (∃ front back : List Line, (∀ l ∈ front ++ back, l.text = []) ∧
      Thinned (scanned none (trimmedLines t))
        (front ++ scanned none (lines (normalize most t)) ++ back)) ∧
    (lasting none (trimmedLines t)).Sublist (lines (normalize most t)) ∧
    normalize most (normalize most t) = normalize most t := by
  obtain ⟨front, back, hempty, hsplit⟩ := exists_squeezeFrom_eq hmost t
  have hblank : ∀ l ∈ front ++ back, allBlank l = true := fun l hl => by
    rw [hempty l hl]
    rfl
  rw [List.forall_mem_append] at hblank hempty
  refine ⟨isNormal_normalize hmost t, ?_, ?_, normalize_of_isNormal (isNormal_normalize hmost t)⟩
  · have hthinned := thinned_squeezeFrom most none 0 (trimmedLines t)
    rw [hsplit, scanned_append, scanned_append, Fence.afterAll_of_allBlank hblank.1] at hthinned
    refine ⟨_, _, List.forall_mem_append.mpr ⟨fun l hl => ?_, fun l hl => ?_⟩, hthinned⟩
    · exact hempty.1 _ (text_of_mem_scanned hl)
    · exact hempty.2 _ (text_of_mem_scanned hl)
  · rw [← lasting_squeezeFrom most none 0 (trimmedLines t), hsplit,
      lasting_append_blank _ _ hblank.2, lasting_blank_append hblank.1]
    exact lasting_sublist _ _

/-- Of two blank lines one is left; a fence that is not closed does not keep those at the end. -/
theorem normalize_canonical_open_fence :
    let source := "\n\na \n\n\nb\n```\n\n\n".toList
    1 ≤ 1 ∧ normalize 1 source = "a\n\nb\n```".toList ∧
      lasting none (trimmedLines source) = ["a".toList, "b".toList, "```".toList] ∧
      IsNormal 1 "a\n\nb\n```".toList := by
  intro source
  have hnormal : normalize 1 source = "a\n\nb\n```".toList := by decide
  have hform : IsNormal 1 (normalize 1 source) := (normalize_canonical (Nat.le_refl 1) source).1
  rw [hnormal] at hform
  exact ⟨Nat.le_refl 1, hnormal, by decide, hform⟩

end Hypermark.Markdown
