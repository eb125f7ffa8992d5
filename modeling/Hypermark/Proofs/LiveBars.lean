import Hypermark.Proofs.DisplayLines

/-!
# Live bars

A bar behind an even number of backslashes is live: it ends a cell.  Any character other than a
backslash ends a run of backslashes, so the live bars of a text are those of its lines together, and
white space at the ends of a cell makes no difference.  Outside of code, that is in a text without
backticks, escaping leaves no live bar at all.

* `liveBars_append_cons`: the live bars on the two sides of a character that separates them.
* `liveBars_escapePipesFrom`: a text without backticks has no live bar once it is escaped.
* `cutBars_append_bar`: a line is cut at its live bars.
-/

namespace Hypermark.Markdown

open Text

/-- The parts of a line between its live bars. -/
def cutBars (line : Text) : List Text :=
  ((readFrom false line).splitOnP Met.isBar).map (·.map Met.source)

/-! ## Reading on behind a character -/

theorem source_of_read (c : Char) (b : Bool) (h : b = true → c = '|') :
    (if b then Met.bar false else Met.plain c).source = c := by
  cases b with
  | false => rfl
  | true => exact (h rfl).symm

theorem map_source_readFrom (odd : Bool) (t : Text) : (readFrom odd t).map Met.source = t := by
  induction t generalizing odd with
  | nil => rfl
  | cons c t ih =>
    rw [readFrom, List.map_cons, ih, source_of_read]
    simp +contextual

/-- A character that is no backslash ends a run of them. -/
theorem readFrom_append_cons {c : Char} (hslash : c ≠ '\\') (hbar : c ≠ '|') (odd : Bool)
    (s t : Text) : readFrom odd (s ++ c :: t) = readFrom odd s ++ .plain c :: readFrom false t := by
  induction s generalizing odd with
  | nil =>
    rw [List.nil_append, readFrom_char hslash]
    simp [hbar, readFrom]
  | cons d s ih => rw [List.cons_append, readFrom, readFrom, ih, List.cons_append]

theorem liveBars_append_cons {c : Char} (hslash : c ≠ '\\') (hbar : c ≠ '|') (s t : Text) :
    liveBars (s ++ c :: t) = liveBars s + liveBars t := by
  rw [liveBars, readFrom_append_cons hslash hbar, List.countP_append,
    List.countP_cons_of_neg (by simp [Met.isBar])]
  rfl

theorem liveBars_cons {c : Char} (hslash : c ≠ '\\') (hbar : c ≠ '|') (t : Text) :
    liveBars (c :: t) = liveBars t := by
  rw [← List.nil_append (c :: t), liveBars_append_cons hslash hbar]
  exact Nat.zero_add _

theorem liveBars_bar (t : Text) : liveBars ('|' :: t) = liveBars t + 1 := by
  rw [liveBars, readFrom_char (by decide)]
  exact List.countP_cons_of_pos rfl

theorem liveBars_quiet_append {s : Text} (h : ∀ c ∈ s, c ≠ '\\' ∧ c ≠ '|') (t : Text) :
    liveBars (s ++ t) = liveBars t := by
  induction s with
  | nil => rfl
  | cons c s ih =>
    rw [List.forall_mem_cons] at h
    rw [List.cons_append, liveBars_cons h.1.1 h.1.2, ih h.2]

/-! ## Lines and white space -/

theorem quiet_of_isBlank {c : Char} (h : isBlank c = true) : c ≠ '\\' ∧ c ≠ '|' := by
  constructor <;> (rintro rfl; cases h)

theorem liveBars_append_blank (t : Text) {w : Text} (h : allBlank w = true) :
    liveBars (t ++ w) = liveBars t := by
  rw [allBlank, List.all_eq_true] at h
  cases w with
  | nil => rw [List.append_nil]
  | cons c w =>
    rw [List.forall_mem_cons] at h
    have hc := quiet_of_isBlank h.1
    have hw : liveBars (w ++ []) = liveBars [] :=
      liveBars_quiet_append (fun c hc => quiet_of_isBlank (h.2 c hc)) []
    rw [List.append_nil] at hw
    rw [liveBars_append_cons hc.1 hc.2, hw]
    rfl

theorem liveBars_trim (t : Text) : liveBars (trim t) = liveBars t := by
  obtain ⟨before, after, hbefore, hafter, heq⟩ := exists_eq_trim t
  rw [allBlank, List.all_eq_true] at hbefore
  conv => rhs; rw [heq]
  rw [liveBars_quiet_append fun c hc => quiet_of_isBlank (hbefore c hc),
    liveBars_append_blank _ hafter]

theorem liveBars_unifyBreaks (t : Text) : liveBars (unifyBreaks t) = liveBars t := by
  have hread : ∀ odd, (readFrom odd (unifyBreaks t)).countP Met.isBar =
      (readFrom odd t).countP Met.isBar := by
    fun_induction unifyBreaks t with
    | case1 => intro odd; rfl
    | case2 t ih =>
      intro odd
      rw [readFrom_char (by decide), readFrom_char (by decide), readFrom_char (by decide)]
      exact ih false
    | case3 t _ ih =>
      intro odd
      rw [readFrom_char (by decide), readFrom_char (by decide)]
      exact ih false
    | case4 c t _ _ ih =>
      intro odd
      rw [readFrom, readFrom, List.countP_cons, List.countP_cons, ih]
  exact hread false

theorem liveBars_unlines_eq_zero_iff (ls : List Text) :
    liveBars (unlines ls) = 0 ↔ ∀ l ∈ ls, liveBars l = 0 := by
  induction ls with
  | nil => exact iff_of_true rfl (by simp)
  | cons l ls ih =>
    cases ls with
    | nil => simp [unlines, List.intercalate]
    | cons k ls =>
      rw [unlines, List.intercalate_cons_cons, List.append_assoc, List.singleton_append,
        liveBars_append_cons (by decide) (by decide), Nat.add_eq_zero_iff, List.forall_mem_cons,
        ← ih]
      rfl

theorem liveBars_eq_zero_of_mem_lines {t l : Text} (h : liveBars t = 0) (hl : l ∈ lines t) :
    liveBars l = 0 := by
  rw [← unlines_lines t, liveBars_unlines_eq_zero_iff] at h
  exact h l hl

/-! ## Escaped texts -/

/-- A text without backticks has no live bar once it is escaped. -/
theorem liveBars_escapePipesFrom {t : Text} (h : backtick ∉ t) :
    liveBars (escapePipesFrom 0 0 t) = 0 := by
  rw [escapePipesFrom_eq]
  induction t using scan_induction with
  | nil => rfl
  | lone => rfl
  | pair c t ih =>
    have ht : backtick ∉ t := fun hmem => h (List.mem_cons_of_mem _ (List.mem_cons_of_mem _ hmem))
    rw [meetFrom_pair]
    show liveBars ('\\' :: c :: (meetFrom 0 0 t).flatMap Met.written) = 0
    rw [liveBars, readFrom_pair]
    exact ih ht
  | run n t _ _ => exact absurd (List.mem_cons_self ..) h
  | char c t hslash htick ih =>
    have ht : backtick ∉ t := fun hmem => h (List.mem_cons_of_mem _ hmem)
    rw [meetFrom_char 0 hslash htick]
    by_cases hbar : c = '|'
    · subst hbar
      show liveBars ('\\' :: '|' :: (meetFrom 0 0 t).flatMap Met.written) = 0
      rw [liveBars, readFrom_pair]
      exact ih ht
    · rw [if_neg hbar]
      show liveBars (c :: (meetFrom 0 0 t).flatMap Met.written) = 0
      rw [liveBars_cons hslash hbar, ih ht]

theorem liveBars_escapeCellLine {t : Text} (h : backtick ∉ t) : liveBars (escapeCellLine t) = 0 := by
  rw [escapeCellLine, liveBars_trim, liveBars_escapePipesFrom h]

/-! ## Cutting at live bars -/

/-- A line is cut at a bar behind a space. -/
theorem cutBars_append_bar {s : Text} (h : liveBars s = 0) (t : Text) :
    cutBars (s ++ ' ' :: '|' :: t) = (s ++ [' ']) :: cutBars t := by
  rw [liveBars, List.countP_eq_zero] at h
  have hread : readFrom false (s ++ ' ' :: '|' :: t) =
      (readFrom false s ++ [.plain ' ']) ++ .bar false :: readFrom false t := by
    rw [readFrom_append_cons (by decide) (by decide), readFrom_char (by decide), List.append_assoc]
    rfl
  have hquiet : ∀ m ∈ readFrom false s ++ [Met.plain ' '], m.isBar = false := by
    intro m hm
    rcases List.mem_append.mp hm with hm | hm
    · simpa using h m hm
    · rw [List.mem_singleton.mp hm]
      rfl
  rw [cutBars, hread, List.splitOnP_append_cons_of_forall_mem hquiet _ rfl, List.map_cons,
    List.map_append, map_source_readFrom]
  rfl

end Hypermark.Markdown
