import Hypermark.Markdown.Code
import Hypermark.Proofs.DocumentLines
import Hypermark.Proofs.Trim

/-!
# Fences of code blocks

The fence of a code block has more backticks than any run in the code.  So the line that opens the
block is read as the opening of a fence, no line of the code closes it, and the last line does.

* `length_le_longestRun`: a run inside a text is no longer than the longest one.
* `opening?_backticks`, `closedBy_backticks`, `not_closedBy`: how the three kinds of lines are read.
* `Fenced`, `fenced_fencedBlock`: the block that they make up.
* `Fenced.squeezeFrom_lines`: squeezing blank lines passes over the whole block.
-/

namespace Hypermark

namespace Text

variable {p : Char → Bool}

/-- A run that has begun is counted whole. -/
theorem exists_runLength_ge {w : Text} (hw : ∀ c ∈ w, p c = true) {before : Nat}
    (hpos : 0 < before + w.length) (rest : Text) :
    ∃ n ∈ runLengthsFrom p before (w ++ rest), before + w.length ≤ n := by
  induction w generalizing before with
  | nil =>
    rw [List.nil_append]
    rw [List.length_nil, Nat.add_zero] at hpos ⊢
    induction rest generalizing before with
    | nil => exact ⟨before, by simp [runLengthsFrom, Nat.pos_iff_ne_zero.mp hpos], Nat.le_refl _⟩
    | cons c rest ih =>
      rw [runLengthsFrom]
      split
      · obtain ⟨n, hn, hle⟩ := ih (Nat.succ_pos before)
        exact ⟨n, hn, by omega⟩
      · rw [if_neg (Nat.pos_iff_ne_zero.mp hpos)]
        exact ⟨before, List.mem_cons_self .., Nat.le_refl _⟩
  | cons c w ih =>
    rw [List.forall_mem_cons] at hw
    rw [List.cons_append, runLengthsFrom, if_pos hw.1, List.length_cons]
    obtain ⟨n, hn, hle⟩ := ih hw.2 (by omega : 0 < before + 1 + w.length)
    exact ⟨n, hn, by omega⟩

/-- A character of another kind parts the runs before it from those after it. -/
theorem runLengthsFrom_append {c : Char} (hc : p c = false) (before : Nat) (s t : Text) :
    runLengthsFrom p before (s ++ c :: t) = runLengthsFrom p before s ++ runLengths p t := by
  induction s generalizing before with
  | nil =>
    simp only [List.nil_append, runLengthsFrom, hc, Bool.false_eq_true, if_false]
    split <;> rfl
  | cons d s ih =>
    rw [List.cons_append, runLengthsFrom, runLengthsFrom]
    split
    · exact ih _
    split
    · exact ih _
    · rw [ih]
      rfl

/-- A run inside a text is no longer than the longest one. -/
theorem length_le_longestRun {w t : Text} (hw : ∀ c ∈ w, p c = true) (h : w <:+: t) :
    w.length ≤ longestRun p t := by
  obtain ⟨before, after, rfl⟩ := h
  rcases Nat.eq_zero_or_pos w.length with hzero | hpos
  · omega
  have hcounted : ∀ count, ∃ n ∈ runLengthsFrom p count (before ++ w ++ after), w.length ≤ n := by
    induction before with
    | nil =>
      intro count
      obtain ⟨n, hn, hle⟩ := exists_runLength_ge hw (by omega : 0 < count + w.length) after
      exact ⟨n, hn, by omega⟩
    | cons c before ih =>
      intro count
      rw [List.cons_append, List.cons_append, runLengthsFrom]
      split
      · exact ih _
      split
      · exact ih _
      · obtain ⟨n, hn, hle⟩ := ih 0
        exact ⟨n, List.mem_cons_of_mem _ hn, hle⟩
  obtain ⟨n, hn, hle⟩ := hcounted 0
  exact Nat.le_trans hle ((longestRun_le_iff p _ _).mp (Nat.le_refl _) n hn)

end Text

namespace Markdown

open Text

theorem takeWhile_backticks (n : Nat) {info : Text} (h : info.head? ≠ some backtick) :
    (backticks n ++ info).takeWhile (· == backtick) = backticks n := by
  have hall : ∀ c ∈ backticks n, (c == backtick) = true := fun c hc => by
    rw [List.eq_of_mem_replicate hc, beq_self_eq_true]
  have hinfo : info.takeWhile (· == backtick) = [] := by
    cases info with
    | nil => rfl
    | cons c info => exact List.takeWhile_cons_of_neg (by simpa using h)
  rw [List.takeWhile_append_of_pos hall, hinfo, List.append_nil]

theorem trim_backticks (n : Nat) : trim (backticks n) = backticks n :=
  trim_of_none_blank fun c hc => by
    rw [List.eq_of_mem_replicate hc]
    rfl

/-- A run of backticks in the text is no longer than the longest one. -/
theorem le_longestBackticks {n : Nat} {t : Text} (h : backticks n <:+: t) :
    n ≤ longestBackticks t := by
  have hle := length_le_longestRun (p := isBacktick)
    (fun c hc => by rw [List.eq_of_mem_replicate hc]; rfl) h
  rwa [backticks, List.length_replicate] at hle

/-- A line of three or more backticks and something else opens a fence. -/
theorem opening?_backticks {n : Nat} (hn : 3 ≤ n) {info : Text} (h : info.head? ≠ some backtick) :
    Fence.opening? (backticks n ++ info) = some ⟨backtick, n⟩ := by
  obtain ⟨m, rfl⟩ := Nat.exists_eq_add_of_le' (Nat.one_le_of_lt hn)
  have hcons : backticks (m + 1) ++ info = backtick :: (backticks m ++ info) := rfl
  have hstart : trimStart (backtick :: (backticks m ++ info)) =
      backtick :: (backticks m ++ info) := rfl
  have hlength : 1 + (backticks m).length = m + 1 := by
    rw [backticks, List.length_replicate, Nat.add_comm]
  have hmark : Fence.isMark backtick = true := rfl
  rw [hcons, Fence.opening?, hstart]
  simp only [takeWhile_backticks m h, hlength, hmark, Bool.true_and, decide_eq_true hn, if_true]

theorem closedBy_backticks {n : Nat} (hn : 1 ≤ n) :
    Fence.closedBy ⟨backtick, n⟩ (backticks n) = true := by
  have hrun : (backticks n).takeWhile (· == backtick) = backticks n := by
    have hnil := @takeWhile_backticks n [] (by simp)
    rwa [List.append_nil] at hnil
  have hhead : (backticks n).head? = some backtick := by
    obtain ⟨m, rfl⟩ := Nat.exists_eq_add_of_le' hn
    rfl
  have hlength : (backticks n).length = n := List.length_replicate
  rw [Fence.closedBy, trim_backticks]
  simp only [hrun, hhead, hlength, beq_self_eq_true, Nat.le_refl, decide_true, Bool.true_and]
  rw [List.drop_of_length_le (Nat.le_of_eq hlength)]
  rfl

/-- No line of the code closes the fence around it. -/
theorem not_closedBy {n : Nat} {line code : Text} (hline : line <:+: code)
    (hn : longestBackticks code < n) : Fence.closedBy ⟨backtick, n⟩ line = false := by
  have hrun : ((trim line).takeWhile (· == backtick)).length ≤ longestBackticks code := by
    apply length_le_longestRun (p := isBacktick)
    · exact fun c hc => List.mem_takeWhile_imp hc
    · exact (List.takeWhile_prefix _).isInfix.trans ((infix_trim line).trans hline)
  have hshort : ¬n ≤ ((trim line).takeWhile (· == backtick)).length := by omega
  rw [Fence.closedBy]
  simp only [decide_eq_false hshort, Bool.and_false, Bool.false_and]

/-! ## Whole blocks -/

/-- The text can follow a fence on its line: it is no part of the fence and does not end the line. -/
def IsInfo (t : Text) : Prop := ∀ c ∈ t, c ≠ backtick ∧ c ≠ '\n' ∧ c ≠ '\r'

/-- The block is the code between two fences of `n` backticks, the first of them followed by `info`,
and who looks for the end of the fence finds it in the last line. -/
structure Fenced (n : Nat) (info : Text) (code : List Text) (block : Text) : Prop where
  lines_eq : lines block = (backticks n ++ info) :: (code ++ [backticks n])
  isInfo : IsInfo info
  opens : Fence.opening? (backticks n ++ info) = some ⟨backtick, n⟩
  stays : ∀ l ∈ code, Fence.closedBy ⟨backtick, n⟩ l = false
  closes : Fence.closedBy ⟨backtick, n⟩ (backticks n) = true

theorem not_mem_backticks {c : Char} (hc : c ≠ backtick) (n : Nat) : c ∉ backticks n :=
  fun h => hc (List.eq_of_mem_replicate h)

theorem fenced_fencedBlock {least : Nat} (hleast : 3 ≤ least) {info : Text}
    (hinfo : IsInfo info) (code : Text) :
    Fenced (max least (longestBackticks code + 1)) info (lines code)
      (fencedBlock least info code) where
  lines_eq := by
    have hshape : fencedBlock least info code =
        (codeFence least code ++ info) ++ '\n' :: (code ++ '\n' :: codeFence least code) := by
      rw [fencedBlock, List.append_assoc]
      rfl
    have hfence : '\n' ∉ codeFence least code := not_mem_backticks (by decide) _
    have hopening : '\n' ∉ codeFence least code ++ info := fun h =>
      (List.mem_append.mp h).elim hfence fun h => (hinfo _ h).2.1 rfl
    rw [hshape, lines_append_feed, lines_append_feed, lines_of_no_feed hopening,
      lines_of_no_feed hfence, List.singleton_append]
    rfl
  isInfo := hinfo
  opens := opening?_backticks (by omega) fun h => (hinfo _ (List.mem_of_mem_head? h)).1 rfl
  stays l hl := not_closedBy (infix_of_mem_lines hl) (by omega)
  closes := closedBy_backticks (by omega)

namespace Fenced

variable {n : Nat} {info block : Text} {code : List Text} (h : Fenced n info code block)
include h

theorem opening_not_blank : allBlank (backticks n ++ info) = false := by
  rw [← Bool.not_eq_true]
  intro hblank
  have hopens := h.opens
  rw [Fence.opening?, show trimStart (backticks n ++ info) = [] from
    (dropWhile_eq_nil_iff isBlank _).mpr hblank] at hopens
  cases hopens

theorem closing_mem : backticks n ∈ lines block := by
  rw [h.lines_eq]
  exact List.mem_cons_of_mem _ (List.mem_append_right _ (List.mem_singleton_self _))

theorem two_le_length : 2 ≤ (lines block).length := by
  rw [h.lines_eq, List.length_cons, List.length_append, List.length_singleton]
  omega

theorem closing_not_blank : allBlank (backticks n) = false := by
  rw [← Bool.not_eq_true]
  intro hblank
  have hcloses := h.closes
  rw [Fence.closedBy, (trim_eq_nil_iff _).mpr hblank] at hcloses
  cases hcloses

end Fenced

/-! ## Lines changed at their edges -/

/-- The normalizer sees no difference between a line and what `g` makes of it. -/
structure ReadsAlike (g : Text → Text) : Prop where
  opening (l : Text) : Fence.opening? (g l) = Fence.opening? l
  closing (f : Fence) (l : Text) : f.closedBy (g l) = f.closedBy l
  blank (l : Text) : allBlank (g l) = allBlank l

namespace ReadsAlike

variable {g h : Text → Text}

theorem id : ReadsAlike id := ⟨fun _ => rfl, fun _ _ => rfl, fun _ => rfl⟩

theorem comp (hg : ReadsAlike g) (hh : ReadsAlike h) : ReadsAlike (g ∘ h) where
  opening l := (hg.opening (h l)).trans (hh.opening l)
  closing f l := (hg.closing f (h l)).trans (hh.closing f l)
  blank l := (hg.blank (h l)).trans (hh.blank l)

theorem after (hg : ReadsAlike g) (fence : Option Fence) (l : Text) :
    Fence.after fence (g l) = Fence.after fence l := by
  cases fence with
  | none => exact hg.opening l
  | some f => rw [Fence.after, Fence.after, hg.closing]

theorem squeezeFrom_map (hg : ReadsAlike g) (most : Int) (fence : Option Fence) (count : Nat)
    (ls : List Text) :
    squeezeFrom most fence count (ls.map g) = (squeezeFrom most fence count ls).map g := by
  induction ls generalizing fence count with
  | nil => rfl
  | cons l ls ih =>
    simp only [List.map_cons, squeezeFrom, hg.after, hg.blank, ih]
    split_ifs <;> rfl

end ReadsAlike

theorem not_isBlank_of_isMark {c : Char} (h : Fence.isMark c = true) : isBlank c = false := by
  rw [Fence.isMark, Bool.or_eq_true, beq_iff_eq, beq_iff_eq] at h
  rcases h with rfl | rfl <;> rfl

/-- White space after the marks does not make the fence longer. -/
theorem opening?_append_blank (t : Text) {w : Text} (h : allBlank w = true) :
    Fence.opening? (t ++ w) = Fence.opening? t := by
  have hstart : trimStart (t ++ w) = if trimStart t = [] then [] else trimStart t ++ w := by
    have hw : w.dropWhile isBlank = [] := (dropWhile_eq_nil_iff isBlank w).mpr h
    rw [trimStart, List.dropWhile_append, hw, trimStart]
    simp only [List.isEmpty_iff]
  rw [Fence.opening?, hstart, Fence.opening?]
  cases trimStart t with
  | nil => rfl
  | cons c cs =>
    by_cases hc : Fence.isMark c = true
    · have hw : w.takeWhile (· == c) = [] := by
        cases w with
        | nil => rfl
        | cons d w =>
          refine List.takeWhile_cons_of_neg fun hd => ?_
          have hblank := List.all_eq_true.mp h d (List.mem_cons_self ..)
          rw [beq_iff_eq.mp hd, not_isBlank_of_isMark hc] at hblank
          cases hblank
      have hrun : (cs ++ w).takeWhile (· == c) = cs.takeWhile (· == c) := by
        rw [List.takeWhile_append]
        split
        · rename_i hlength
          rw [hw, List.append_nil, (List.takeWhile_prefix _).eq_of_length hlength]
        · rfl
      simp only [reduceCtorEq, if_false, List.cons_append, hrun]
    · simp only [reduceCtorEq, if_false, List.cons_append, Bool.eq_false_iff.mpr hc, Bool.false_and,
        Bool.false_eq_true]

theorem closedBy_congr {k l : Text} (h : trim k = trim l) (f : Fence) :
    f.closedBy k = f.closedBy l := by
  rw [Fence.closedBy, Fence.closedBy, h]

theorem exists_eq_trimLine_append (l : Text) : ∃ w, l = trimLine l ++ w ∧ allBlank w = true := by
  refine ⟨_, List.rdropWhile_append_rtakeWhile.symm, List.all_eq_true.mpr fun c hc => ?_⟩
  have hspace := List.mem_rtakeWhile_imp hc
  rw [Bool.or_eq_true, beq_iff_eq, beq_iff_eq] at hspace
  rcases hspace with rfl | rfl <;> rfl

theorem trimEnd_trimLine (l : Text) : trimEnd (trimLine l) = trimEnd l := by
  obtain ⟨w, hl, hw⟩ := exists_eq_trimLine_append l
  conv => rhs; rw [hl, trimEnd_append_blank _ hw]

theorem readsAlike_trimLine : ReadsAlike trimLine := by
  refine ⟨fun l => ?_, fun f l => closedBy_congr ?_ f, fun l => ?_⟩ <;>
    obtain ⟨w, hl, hw⟩ := exists_eq_trimLine_append l
  · conv => rhs; rw [hl, opening?_append_blank _ hw]
  · conv => rhs; rw [hl, trim_append_blank _ hw]
  · conv => rhs; rw [hl, allBlank, List.all_append, ← allBlank, ← allBlank, hw, Bool.and_true]

/-! ## Squeezing -/

/-- Lines that keep a fence open are all kept. -/
theorem squeezeFrom_inside (most : Int) {f : Fence} {ls : List Text}
    (h : ∀ l ∈ ls, f.closedBy l = false) (count : Nat) (rest : List Text) :
    ∃ count', squeezeFrom most (some f) count (ls ++ rest) =
      ls ++ squeezeFrom most (some f) count' rest := by
  induction ls generalizing count with
  | nil => exact ⟨count, rfl⟩
  | cons l ls ih =>
    rw [List.forall_mem_cons] at h
    obtain ⟨count', hrest⟩ := ih h.2 0
    have hafter : Fence.after (some f) l = some f := by
      rw [Fence.after, h.1]
      rfl
    refine ⟨count', ?_⟩
    rw [List.cons_append, squeezeFrom, hafter]
    exact congrArg (l :: ·) hrest

/-- Lines that open no fence go through squeezing on their own. -/
theorem squeezeFrom_outside (most : Int) {ls : List Text}
    (h : ∀ l ∈ ls, Fence.opening? l = none) (count : Nat) (rest : List Text) :
    ∃ kept count', squeezeFrom most none count (ls ++ rest) =
      kept ++ squeezeFrom most none count' rest := by
  induction ls generalizing count with
  | nil => exact ⟨[], count, rfl⟩
  | cons l ls ih =>
    rw [List.forall_mem_cons] at h
    have hafter : Fence.after none l = none := h.1
    rw [List.cons_append]
    simp only [squeezeFrom, hafter, Option.isSome_none, Bool.or_self, Bool.false_eq_true, if_false]
    split
    · obtain ⟨kept, count', hrest⟩ := ih h.2 0
      exact ⟨l :: kept, count', by rw [hrest, List.cons_append]⟩
    split
    · obtain ⟨kept, count', hrest⟩ := ih h.2 (count + 1)
      exact ⟨l :: kept, count', by rw [hrest, List.cons_append]⟩
    · exact ih h.2 (count + 1)

/-- Lines with text that open no fence are all kept. -/
theorem squeezeFrom_prose (most : Int) {ls : List Text}
    (h : ∀ l ∈ ls, allBlank l = false ∧ Fence.opening? l = none) (count : Nat) :
    squeezeFrom most none count ls = ls := by
  induction ls generalizing count with
  | nil => rfl
  | cons l ls ih =>
    rw [List.forall_mem_cons] at h
    have hafter : Fence.after none l = none := h.1.2
    rw [squeezeFrom, hafter, h.1.1]
    exact congrArg (l :: ·) (ih h.2 0)

/-- A fenced block goes through squeezing as it is. -/
theorem Fenced.squeezeFrom_lines {n : Nat} {info block : Text} {code : List Text}
    (h : Fenced n info code block) (most : Int) (count : Nat) :
    squeezeFrom most none count (lines block) = lines block := by
  have hopening : Fence.after none (backticks n ++ info) = some ⟨backtick, n⟩ := h.opens
  obtain ⟨count', hcode⟩ := squeezeFrom_inside most h.stays 0 [backticks n]
  rw [h.lines_eq, squeezeFrom, hopening]
  simp only [Option.isSome_none, Option.isSome_some, Bool.or_true, if_true, hcode]
  rfl

end Markdown

end Hypermark
