import Hypermark.Proofs.ExposedBars

/-!
# Guards in a cell

A bar that is escaped already never gets a second backslash, and one that the scan has escaped is
such a bar to the next scan.  The backslashes that are put in touch no run of backticks and stand
where the scan is between two pieces, so a second scan comes by every character in the state of the
first one and finds nothing to do.

* `GuardedLive`: the second text is the first one with backslashes before some live bars.
* `escapePipesFrom_step`: what one step of the scan does.
* `escapePipesFrom_escapePipesFrom`: a second scan changes nothing.
* `escapePipesFrom_append_blank`: white space at an end has no part in the scan.
* `cell_guarded_once`: what escaping does to a line, and that it does it once.
-/

namespace Hypermark.Markdown

open Text

/-! ## Backslashes before live bars -/

/-- The second text is the first one with backslashes before some of its bars, and before none that
is escaped: `odd` tells if an odd number of backslashes comes directly before the two. -/
inductive GuardedLive : Bool → Text → Text → Prop
  | nil {odd : Bool} : GuardedLive odd [] []
  | keep {odd : Bool} (c : Char) {s t : Text} :
      GuardedLive (c == '\\' && !odd) s t → GuardedLive odd (c :: s) (c :: t)
  | guard {s t : Text} : GuardedLive false s t → GuardedLive false ('|' :: s) ('\\' :: '|' :: t)

/-- What is written for the characters of a line that was read has backslashes before live bars
only. -/
theorem guardedLive_written {ms : List Met} {odd : Bool}
    (h : ms.map Met.opened = readFrom odd (ms.map Met.source)) :
    GuardedLive odd (ms.map Met.source) (ms.flatMap Met.written) := by
  induction ms generalizing odd with
  | nil => exact .nil
  | cons m ms ih =>
    rw [List.map_cons, List.map_cons, readFrom] at h
    obtain ⟨hhead, hrest⟩ := List.cons.inj h
    cases m with
    | plain c => exact .keep c (ih hrest)
    | bar inCode =>
      -- a bar behind an odd number of backslashes would have been read as plain
      have hlive : odd = false := by
        cases odd with
        | false => rfl
        | true => cases hhead
      subst hlive
      cases inCode with
      | false => exact .guard (ih hrest)
      | true => exact .keep '|' (ih hrest)

theorem guardedLive_escapePipesFrom (fence : Nat) (t : Text) :
    GuardedLive false t (escapePipesFrom fence 0 t) := by
  have hread : (meetFrom fence 0 t).map Met.opened =
      readFrom false ((meetFrom fence 0 t).map Met.source) := by
    rw [map_source_meetFrom, map_opened_meetFrom]
  have h := guardedLive_written hread
  rwa [map_source_meetFrom, ← escapePipesFrom_eq] at h

namespace GuardedLive

variable {odd : Bool} {s t : Text}

theorem isEmpty_eq (h : GuardedLive odd s t) : s.isEmpty = t.isEmpty := by
  cases h <;> rfl

theorem trimStart (h : GuardedLive false s t) :
    GuardedLive false (trimStart s) (trimStart t) := by
  generalize hodd : false = odd at h
  induction h with
  | nil => exact .nil
  | @keep odd c s t h ih =>
    subst hodd
    unfold Text.trimStart at ih ⊢
    by_cases hc : isBlank c = true
    · have hslash : (c == '\\' && !false) = false := by simp [(quiet_of_isBlank hc).1]
      rw [List.dropWhile_cons_of_pos hc, List.dropWhile_cons_of_pos hc, ← hslash]
      exact ih hslash.symm
    · rw [List.dropWhile_cons_of_neg hc, List.dropWhile_cons_of_neg hc]
      exact .keep c h
  | guard h => exact .guard h

theorem trimEnd (h : GuardedLive odd s t) : GuardedLive odd (trimEnd s) (trimEnd t) := by
  induction h with
  | nil => exact .nil
  | keep c h ih =>
    rw [trimEnd_cons, trimEnd_cons, ih.isEmpty_eq]
    split
    · exact .nil
    · exact .keep c ih
  | guard h ih =>
    rw [trimEnd_cons, trimEnd_cons, trimEnd_cons]
    exact .guard ih

theorem trim (h : GuardedLive false s t) : GuardedLive false (trim s) (trim t) :=
  h.trimStart.trimEnd

end GuardedLive

/-! ## A second scan -/

/-- One step of the scan: it guards a bar, or copies the character and goes on in a state that
depends on the runs of backticks behind it only. -/
theorem escapePipesFrom_step (fence copy : Nat) (c : Char) (t : Text) :
    (fence = 0 ∧ copy = 0 ∧ c = '|') ∨ ∃ fence' copy', ∀ s, SameTicks s t →
      escapePipesFrom fence copy (c :: s) = c :: escapePipesFrom fence' copy' s := by
  cases copy with
  | succ k => exact .inr ⟨fence, k, fun _ _ => rfl⟩
  | zero =>
    by_cases hslash : c = '\\'
    · subst hslash
      exact .inr ⟨fence, 1, fun _ _ => rfl⟩
    by_cases htick : c = backtick
    · subst htick
      refine .inr ⟨fenceAfter fence (leadingBackticks t + 1) (t.drop (leadingBackticks t)),
        leadingBackticks t, fun s h => ?_⟩
      show backtick :: escapePipesFrom
        (fenceAfter fence (leadingBackticks s + 1) (s.drop (leadingBackticks s)))
        (leadingBackticks s) s = _
      rw [fenceAfter, h.runs, h.lead]
      rfl
    by_cases hbar : c = '|'
    · subst hbar
      cases fence with
      | zero => exact .inl ⟨rfl, rfl, rfl⟩
      | succ n => exact .inr ⟨n + 1, 0, fun _ _ => rfl⟩
    · exact .inr ⟨fence, 0, fun s _ => escapePipesFrom_char fence hslash htick hbar s⟩

/-- The scan comes by its own result in the states in which it wrote it. -/
theorem escapePipesFrom_escapePipesFrom (fence copy : Nat) (t : Text) :
    escapePipesFrom fence copy (escapePipesFrom fence copy t) = escapePipesFrom fence copy t := by
  induction t generalizing fence copy with
  | nil => rfl
  | cons c t ih =>
    rcases escapePipesFrom_step fence copy c t with ⟨rfl, rfl, rfl⟩ | ⟨fence', copy', hstep⟩
    · exact congrArg ('\\' :: '|' :: ·) (ih 0 0)
    · -- the backslashes leave the runs of backticks alone, so looking ahead shows the same
      rw [hstep t ⟨rfl, rfl⟩, hstep _ (guarded_escapePipesFrom fence' copy' t).sameTicks, ih]

/-! ## White space at the ends -/

theorem escapePipesFrom_blank_append {w : Text} (hw : allBlank w = true) (fence : Nat) (t : Text) :
    escapePipesFrom fence 0 (w ++ t) = w ++ escapePipesFrom fence 0 t := by
  induction w with
  | nil => rfl
  | cons c w ih =>
    obtain ⟨hc, hw⟩ := Bool.and_eq_true_iff.mp hw
    have htick : c ≠ backtick := by
      rintro rfl
      cases hc
    rw [List.cons_append, escapePipesFrom_char fence (quiet_of_isBlank hc).1 htick
      (quiet_of_isBlank hc).2, ih hw, List.cons_append]

theorem escapePipesFrom_blank {w : Text} (hw : allBlank w = true) (fence copy : Nat) :
    escapePipesFrom fence copy w = w := by
  induction w generalizing fence copy with
  | nil => rfl
  | cons c w ih =>
    obtain ⟨hc, hw⟩ := Bool.and_eq_true_iff.mp hw
    rcases escapePipesFrom_step fence copy c w with ⟨rfl, rfl, rfl⟩ | ⟨fence', copy', hstep⟩
    · cases hc
    · rw [hstep w ⟨rfl, rfl⟩, ih hw]

theorem escapePipesFrom_append_blank (fence copy : Nat) (t : Text) {w : Text}
    (hw : allBlank w = true) :
    escapePipesFrom fence copy (t ++ w) = escapePipesFrom fence copy t ++ w := by
  induction t generalizing fence copy with
  | nil => exact escapePipesFrom_blank hw fence copy
  | cons c t ih =>
    rw [List.cons_append]
    rcases escapePipesFrom_step fence copy c t with ⟨rfl, rfl, rfl⟩ | ⟨fence', copy', hstep⟩
    · exact congrArg ('\\' :: '|' :: ·) (ih 0 0)
    · rw [hstep _ (sameTicks_append_blank t hw), hstep t ⟨rfl, rfl⟩, ih, List.cons_append]

/-- An escaped line stays as it is when it is escaped again. -/
theorem escapeCellLine_escapeCellLine (line : Text) :
    escapeCellLine (escapeCellLine line) = escapeCellLine line := by
  obtain ⟨before, after, hbefore, hafter, heq⟩ := exists_eq_trim (escapePipesFrom 0 0 line)
  have htwice := escapePipesFrom_escapePipesFrom 0 0 line
  rw [heq, escapePipesFrom_blank_append hbefore, escapePipesFrom_append_blank _ _ _ hafter,
    List.append_right_inj, List.append_left_inj] at htwice
  show trim (escapePipesFrom 0 0 (trim (escapePipesFrom 0 0 line))) = _
  rw [htwice]
  exact trim_trim _

/-- Escaping a line puts backslashes before live bars only, so what is escaped already stays as it
is, and trims the result; taking the backslashes out again gives the trimmed line.  To escape the
result once more changes nothing. -/
theorem cell_guarded_once (line : Text) :
    (∃ t, GuardedLive false line t ∧ escapeCellLine line = trim t) ∧
      GuardedLive false (trim line) (escapeCellLine line) ∧
      escapeCellLine (escapeCellLine line) = escapeCellLine line := by
  have hguarded := guardedLive_escapePipesFrom 0 line
  exact ⟨⟨_, hguarded, rfl⟩, hguarded.trim, escapeCellLine_escapeCellLine line⟩

example : escapeCellLine " a\\|b | \x60c|d\x60 \\ ".toList = "a\\|b \\| \x60c|d\x60 \\".toList := rfl

end Hypermark.Markdown
