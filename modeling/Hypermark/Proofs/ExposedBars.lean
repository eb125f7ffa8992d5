import Hypermark.Proofs.CodeSpans
import Hypermark.Proofs.LiveBars

/-!
# Exposed bars

The scan over a cell skips the character after every backslash, in code as well.  To a reader a
backslash in a code span is a character like any other, so where one stands before the run that
closes the span, the two disagree from there on: the scan takes for code what is none, and leaves
the bars in it as they are.

What a `Reader` makes of the next character depends on the rest of the line through its runs of
backticks only, and these are not touched by escaping bars or by trimming.  So it can go through the
line while the scan does, and sees there what it would see in the result.

* `SameTicks`: all that a reader looks ahead for.
* `accounted_of_inStep`: reader and scan side by side, one character at a time.
* `view_eq_meetFrom`: they agree while no span is closed behind a backslash.
* `exposedBars_escapeCellLine`: the bars that are left exposed in a cell.
-/

namespace Hypermark.Markdown

open Text

/-! ## A reader of code spans -/

/-- A reader of code spans at a place in a line: whether an odd number of backslashes comes directly
before, the length of the run that opened the code span here, zero outside of code, and the number
of backticks of a run that still pass. -/
structure Reader where
  odd : Bool
  fence : Nat
  copy : Nat
deriving DecidableEq

namespace Reader

/-- The beginning of a line. -/
def start : Reader := ⟨false, 0, 0⟩

/-- The place behind a character that `rest` follows.  Outside of code a backslash escapes a
backtick, in code it does not; any other backtick begins a run, which opens a span if there is
another run of its length behind it, or closes the open one if it is as long. -/
def after (r : Reader) (c : Char) (rest : Text) : Reader :=
  match r.copy with
  | k + 1 => ⟨false, r.fence, k⟩
  | 0 =>
    if c = backtick && !(r.odd && r.fence == 0) then
      let more := leadingBackticks rest
      ⟨false, fenceAfter r.fence (more + 1) (rest.drop more), more⟩
    else ⟨c == '\\' && !r.odd, r.fence, 0⟩

/-- A character at this place, a bar being told apart if it is not escaped. -/
def sees (r : Reader) (c : Char) : Met :=
  if c = '|' && !r.odd then .bar (r.fence != 0) else .plain c

/-- The characters from this place on. -/
def view (r : Reader) : Text → List Met
  | [] => []
  | c :: cs => r.sees c :: view (r.after c cs) cs

/-- From this place on, a run of backticks in a code span stands directly behind an odd number of
backslashes. -/
def slashed (r : Reader) : Text → Bool
  | [] => false
  | c :: cs => (c == backtick && r.odd && r.fence != 0) || slashed (r.after c cs) cs

end Reader

/-- A bar outside of code that is not escaped. -/
def Met.isExposed : Met → Bool
  | .bar false => true
  | _ => false

/-- The number of bars that stand outside of the code spans of a line behind an even number of
backslashes. -/
def exposedBars (t : Text) : Nat := (Reader.start.view t).countP Met.isExposed

/-- A bar that the scan takes for code and a reader does not. -/
def isOverlooked (p : Met × Met) : Bool := p.1 == .bar true && p.2.isExposed

/-- The number of bars that the scan of a line takes for code though they are not. -/
def overlookedBars (t : Text) : Nat :=
  ((meetFrom 0 0 t).zip (Reader.start.view t)).countP isOverlooked

/-! ## Looking ahead -/

/-- Two texts with the same runs of backticks, as far as a reader looks ahead. -/
structure SameTicks (s t : Text) : Prop where
  lead : leadingBackticks s = leadingBackticks t
  runs : runLengths isBacktick (s.drop (leadingBackticks s)) =
    runLengths isBacktick (t.drop (leadingBackticks t))

theorem SameTicks.after {s t : Text} (h : SameTicks s t) (r : Reader) (c : Char) :
    r.after c s = r.after c t := by
  unfold Reader.after
  simp only [fenceAfter, h.runs]
  simp only [h.lead]

theorem leadingBackticks_backtick (t : Text) :
    leadingBackticks (backtick :: t) = leadingBackticks t + 1 := rfl

theorem leadingBackticks_of_ne {c : Char} (h : c ≠ backtick) (t : Text) :
    leadingBackticks (c :: t) = 0 := by
  rw [leadingBackticks, List.takeWhile_cons_of_neg (by simpa [isBacktick] using h)]
  rfl

/-- Where backticks are left to pass, the next character is one. -/
theorem backtick_of_lt_lead {k : Nat} {c : Char} {t : Text} (h : k + 1 ≤ leadingBackticks (c :: t)) :
    c = backtick ∧ k ≤ leadingBackticks t := by
  by_cases hc : c = backtick
  · rw [hc, leadingBackticks_backtick] at h
    exact ⟨hc, by omega⟩
  · rw [leadingBackticks_of_ne hc] at h
    omega

theorem Guarded.runLengthsFrom_eq {s t : Text} (h : Guarded s t) (before : Nat) :
    runLengthsFrom isBacktick before t = runLengthsFrom isBacktick before s := by
  induction h generalizing before with
  | nil => rfl
  | keep c _ ih => rw [runLengthsFrom, runLengthsFrom, ih, ih]
  | @guard s t _ ih =>
    have hbar : ∀ k (u : Text), runLengthsFrom isBacktick k ('|' :: u) =
        if k = 0 then runLengthsFrom isBacktick 0 u else k :: runLengthsFrom isBacktick 0 u :=
      fun k u => rfl
    show (if before = 0 then runLengthsFrom isBacktick 0 ('|' :: t)
      else before :: runLengthsFrom isBacktick 0 ('|' :: t)) = _
    rw [hbar, hbar, if_pos rfl, ih]

theorem Guarded.sameTicks {s t : Text} (h : Guarded s t) : SameTicks t s := by
  induction h with
  | nil => exact ⟨rfl, rfl⟩
  | @keep c s t h ih =>
    by_cases hc : c = backtick
    · subst hc
      exact ⟨congrArg (· + 1) ih.lead, ih.runs⟩
    · have hs := leadingBackticks_of_ne hc s
      have ht := leadingBackticks_of_ne hc t
      refine ⟨by rw [hs, ht], ?_⟩
      rw [hs, ht]
      exact (h.keep c).runLengthsFrom_eq 0
  | guard h => exact ⟨rfl, h.guard.runLengthsFrom_eq 0⟩

theorem runLengths_of_no_backtick {t : Text} (h : ∀ c ∈ t, c ≠ backtick) :
    runLengths isBacktick t = [] := by
  induction t with
  | nil => rfl
  | cons c t ih =>
    rw [List.forall_mem_cons] at h
    rw [runLengths_char h.1, ih h.2]

theorem runLengths_append_blank (t : Text) {w : Text} (hw : allBlank w = true) :
    runLengths isBacktick (t ++ w) = runLengths isBacktick t := by
  rw [allBlank, List.all_eq_true] at hw
  have hother : ∀ c ∈ w, c ≠ backtick := by
    rintro c hc rfl
    exact absurd (hw _ hc) (by decide)
  cases w with
  | nil => rw [List.append_nil]
  | cons c w =>
    rw [List.forall_mem_cons] at hother
    rw [runLengths, runLengthsFrom_append (by simpa [isBacktick] using hother.1),
      runLengths_of_no_backtick hother.2, List.append_nil]
    rfl

theorem sameTicks_append_blank (t : Text) {w : Text} (hw : allBlank w = true) :
    SameTicks (t ++ w) t := by
  obtain ⟨rest, heq, hrest⟩ := exists_eq_backticks_append t
  have hhead : (rest ++ w).head? ≠ some backtick := by
    cases rest with
    | nil =>
      intro hhead
      have hmem := List.all_eq_true.mp hw _ (List.mem_of_mem_head? hhead)
      cases hmem
    | cons c rest => exact hrest
  have hlead : leadingBackticks (t ++ w) = leadingBackticks t := by
    conv => lhs; rw [heq, List.append_assoc]
    exact leadingBackticks_append _ hhead
  have hle : leadingBackticks t ≤ t.length := (List.takeWhile_sublist _).length_le
  refine ⟨hlead, ?_⟩
  rw [hlead, List.drop_append_of_le_length hle, runLengths_append_blank _ hw]

/-- Neither a backslash nor a backtick: the reader only moves on. -/
theorem after_plain {fence : Nat} {c : Char} {t : Text} (hslash : c ≠ '\\') (htick : c ≠ backtick) :
    (⟨false, fence, 0⟩ : Reader).after c t = ⟨false, fence, 0⟩ := by
  simp [Reader.after, hslash, htick]

/-! ## White space around a line -/

section Blank

theorem sees_of_isBlank {c : Char} (hc : isBlank c = true) (r : Reader) :
    (r.sees c).isExposed = false := by
  have hbar := (quiet_of_isBlank hc).2
  rw [Reader.sees, if_neg (by simp [hbar])]
  rfl

theorem exposed_blank (r : Reader) {w : Text} (hw : ∀ c ∈ w, isBlank c = true) :
    (r.view w).countP Met.isExposed = 0 := by
  induction w generalizing r with
  | nil => rfl
  | cons c w ih =>
    rw [List.forall_mem_cons] at hw
    rw [Reader.view, List.countP_cons_of_neg (by simp [sees_of_isBlank hw.1]), ih _ hw.2]

theorem exposed_append_blank (r : Reader) (t : Text) {w : Text} (hw : allBlank w = true) :
    (r.view (t ++ w)).countP Met.isExposed = (r.view t).countP Met.isExposed := by
  induction t generalizing r with
  | nil => exact exposed_blank r (List.all_eq_true.mp hw)
  | cons c t ih =>
    rw [List.cons_append, Reader.view, Reader.view, (sameTicks_append_blank t hw).after,
      List.countP_cons, List.countP_cons, ih]

theorem exposedBars_blank_append {w : Text} (hw : ∀ c ∈ w, isBlank c = true) (t : Text) :
    exposedBars (w ++ t) = exposedBars t := by
  induction w with
  | nil => rfl
  | cons c w ih =>
    rw [List.forall_mem_cons] at hw
    have hslash := (quiet_of_isBlank hw.1).1
    have htick : c ≠ backtick := by
      rintro rfl
      cases hw.1
    have hstart : Reader.start.after c (w ++ t) = .start := after_plain hslash htick
    rw [exposedBars, List.cons_append, Reader.view, hstart,
      List.countP_cons_of_neg (by simp [sees_of_isBlank hw.1])]
    exact ih hw.2

theorem exposedBars_trim (t : Text) : exposedBars (trim t) = exposedBars t := by
  obtain ⟨before, after, hbefore, hafter, heq⟩ := exists_eq_trim t
  conv => rhs; rw [heq]
  rw [exposedBars_blank_append (List.all_eq_true.mp hbefore)]
  exact (exposed_append_blank .start (trim t) hafter).symm

end Blank

/-! ## Reader and scan in step -/

/-- Where the scan and the reader are: both in a run of backticks or at its end, or both behind a
backslash with the character after it still to pass. -/
inductive InStep : Reader → Nat → Text → Prop
  | passing {fence copy scan : Nat} {t : Text} : copy ≤ leadingBackticks t →
      scan ≤ leadingBackticks t → InStep ⟨false, fence, copy⟩ scan t
  | escaped {fence : Nat} {t : Text} : InStep ⟨true, fence, 0⟩ 1 t

section InStep

variable {r : Reader} {scan fence : Nat} {c : Char} {t : Text}

theorem inStep_start (t : Text) : InStep .start 0 t := .passing (Nat.zero_le _) (Nat.zero_le _)

/-- A character that is no backslash leaves the reader at the start of something new. -/
theorem InStep.after_char {copy : Nat} (hcopy : copy ≤ leadingBackticks (c :: t))
    (hslash : c ≠ '\\') (hscan : scan ≤ leadingBackticks t) :
    InStep ((⟨false, fence, copy⟩ : Reader).after c t) scan t := by
  cases copy with
  | succ k => exact .passing (backtick_of_lt_lead hcopy).2 hscan
  | zero =>
    by_cases hc : c = backtick
    · subst hc
      exact .passing (Nat.le_refl _) hscan
    · rw [after_plain hslash hc]
      exact .passing (Nat.zero_le _) hscan

theorem InStep.after_escaped : InStep ((⟨true, fence, 0⟩ : Reader).after c t) 0 t := by
  have hodd : (c == '\\' && !true) = false := by rw [Bool.not_true, Bool.and_false]
  unfold Reader.after
  dsimp only
  split
  · exact .passing (Nat.le_refl _) (Nat.zero_le _)
  · rw [hodd]
    exact .passing (Nat.zero_le _) (Nat.zero_le _)

/-- From here on, the bars exposed in the result are those that the scan overlooks in the line. -/
def Accounted (r : Reader) (fence scan : Nat) (t : Text) : Prop :=
  (r.view (escapePipesFrom fence scan t)).countP Met.isExposed =
    ((meetFrom fence scan t).zip (r.view t)).countP isOverlooked

theorem sees_of_ne_bar (r : Reader) (hbar : c ≠ '|') : (r.sees c).isExposed = false := by
  rw [Reader.sees, if_neg (by simp [hbar])]
  rfl

theorem sees_escaped (span : Nat) (c : Char) : (⟨true, span, 0⟩ : Reader).sees c = .plain c :=
  if_neg (by simp)

/-- A character that the scan copies and takes for no bar. -/
theorem Accounted.copied {fence' scan' : Nat} (h : Accounted (r.after c t) fence' scan' t)
    (hsees : (r.sees c).isExposed = false)
    (hout : escapePipesFrom fence scan (c :: t) = c :: escapePipesFrom fence' scan' t)
    (hmet : meetFrom fence scan (c :: t) = .plain c :: meetFrom fence' scan' t) :
    Accounted r fence scan (c :: t) := by
  have hafter := (guarded_escapePipesFrom fence' scan' t).sameTicks.after r c
  rw [Accounted, hout, hmet, Reader.view, Reader.view, List.zip_cons_cons, hafter,
    List.countP_cons_of_neg (by simp [hsees]), List.countP_cons_of_neg (by simp [isOverlooked])]
  exact h

/-- A live bar, which the scan leaves as it is in code and escapes elsewhere. -/
theorem Accounted.bar {span : Nat} (h : Accounted ⟨false, span, 0⟩ fence 0 t) :
    Accounted ⟨false, span, 0⟩ fence 0 ('|' :: t) := by
  cases fence with
  | zero =>
    -- the backslash that is put in escapes the bar for the reader too
    have hview : ∀ u, (⟨false, span, 0⟩ : Reader).view ('\\' :: '|' :: u) =
        .plain '\\' :: .plain '|' :: (⟨false, span, 0⟩ : Reader).view u := fun u => rfl
    show ((⟨false, span, 0⟩ : Reader).view ('\\' :: '|' :: escapePipesFrom 0 0 t)).countP _ =
      ((Met.bar false :: meetFrom 0 0 t).zip
        (Met.bar (span != 0) :: (⟨false, span, 0⟩ : Reader).view t)).countP _
    rw [hview, List.zip_cons_cons, List.countP_cons_of_neg (by simp [Met.isExposed]),
      List.countP_cons_of_neg (by simp [Met.isExposed]),
      List.countP_cons_of_neg (by simp [isOverlooked])]
    exact h
  | succ n =>
    show (Met.bar (span != 0) :: (⟨false, span, 0⟩ : Reader).view
        (escapePipesFrom (n + 1) 0 t)).countP _ =
      ((Met.bar true :: meetFrom (n + 1) 0 t).zip
        (Met.bar (span != 0) :: (⟨false, span, 0⟩ : Reader).view t)).countP _
    rw [List.zip_cons_cons, List.countP_cons, List.countP_cons, h]
    rfl

/-- The scan may be in any state that fits the place of the reader. -/
theorem accounted_of_inStep (h : InStep r scan t) : Accounted r fence scan t := by
  induction t generalizing r fence scan with
  | nil => rfl
  | cons c t ih =>
    cases h with
    | escaped =>
      exact (ih .after_escaped).copied (by rw [sees_escaped]; rfl) rfl rfl
    | @passing span copy _ _ hcopy hscan =>
      cases scan with
      | succ k =>
        obtain ⟨rfl, hk⟩ := backtick_of_lt_lead hscan
        have hnext : InStep ((⟨false, span, copy⟩ : Reader).after backtick t) k t :=
          .after_char hcopy (by decide) hk
        exact (ih hnext).copied (sees_of_ne_bar _ (by decide)) rfl rfl
      | zero =>
        by_cases hslash : c = '\\'
        · subst hslash
          obtain rfl : copy = 0 := Nat.le_zero.mp hcopy
          have hnext : InStep ((⟨false, span, 0⟩ : Reader).after '\\' t) 1 t := .escaped
          exact (ih hnext).copied (sees_of_ne_bar _ (by decide)) rfl rfl
        by_cases htick : c = backtick
        · subst htick
          have hnext : InStep ((⟨false, span, copy⟩ : Reader).after backtick t)
              (leadingBackticks t) t := .after_char hcopy (by decide) (Nat.le_refl _)
          exact (ih hnext).copied (sees_of_ne_bar _ (by decide)) rfl rfl
        by_cases hbar : c = '|'
        · subst hbar
          obtain rfl : copy = 0 := Nat.le_zero.mp hcopy
          exact (ih (.passing (Nat.zero_le _) (Nat.zero_le _))).bar
        · have hnext : InStep ((⟨false, span, copy⟩ : Reader).after c t) 0 t :=
            .after_char hcopy hslash (Nat.zero_le _)
          have hout := escapePipesFrom_char fence hslash htick hbar t
          have hmet : meetFrom fence 0 (c :: t) = .plain c :: meetFrom fence 0 t := by
            rw [meetFrom_char fence hslash htick, if_neg hbar]
          exact (ih hnext).copied (sees_of_ne_bar _ hbar) hout hmet

/-- While no code span is closed behind a backslash, the scan meets what a reader sees. -/
theorem view_eq_meetFrom (h : InStep r scan t) (hcopy : r.odd = false → r.copy = scan)
    (hslashed : r.slashed t = false) : r.view t = meetFrom r.fence scan t := by
  induction t generalizing r scan with
  | nil => rfl
  | cons c t ih =>
    rw [Reader.slashed, Bool.or_eq_false_iff] at hslashed
    obtain ⟨hhere, hrest⟩ := hslashed
    cases h with
    | @escaped fence =>
      have hafter : (⟨true, fence, 0⟩ : Reader).after c t = ⟨false, fence, 0⟩ := by
        have hrun : (c = backtick && !(true && fence == 0)) = false := by
          simpa [bne] using hhere
        show (if c = backtick && !(true && fence == 0) then _
          else (⟨c == '\\' && !true, fence, 0⟩ : Reader)) = _
        rw [if_neg (by rw [hrun]; exact Bool.false_ne_true), Bool.not_true, Bool.and_false]
      rw [hafter] at hrest
      rw [Reader.view, hafter, sees_escaped,
        ih (.passing (Nat.zero_le _) (Nat.zero_le _)) (fun _ => rfl) hrest]
      rfl
    | @passing fence copy _ _ hlead _ =>
      obtain rfl : copy = scan := hcopy rfl
      cases copy with
      | succ k =>
        obtain ⟨rfl, hk⟩ := backtick_of_lt_lead hlead
        have hnext : InStep ⟨false, fence, k⟩ k t := .passing hk hk
        exact congrArg (Met.plain backtick :: ·) (ih hnext (fun _ => rfl) hrest)
      | zero =>
        by_cases hslash : c = '\\'
        · subst hslash
          exact congrArg (Met.plain '\\' :: ·) (ih .escaped nofun hrest)
        by_cases htick : c = backtick
        · subst htick
          have hnext : InStep ((⟨false, fence, 0⟩ : Reader).after backtick t)
              (leadingBackticks t) t := .passing (Nat.le_refl _) (Nat.le_refl _)
          exact congrArg (Met.plain backtick :: ·) (ih hnext (fun _ => rfl) hrest)
        · have hafter : (⟨false, fence, 0⟩ : Reader).after c t = ⟨false, fence, 0⟩ :=
            after_plain hslash htick
          rw [hafter] at hrest
          rw [Reader.view, hafter, meetFrom_char fence hslash htick,
            ih (.passing (Nat.zero_le _) (Nat.zero_le _)) (fun _ => rfl) hrest]
          simp [Reader.sees]

end InStep

/-- Of what scan and reader see alike nothing is overlooked. -/
theorem overlooked_zip_self (ms : List Met) : (ms.zip ms).countP isOverlooked = 0 := by
  induction ms with
  | nil => rfl
  | cons m ms ih =>
    have hm : isOverlooked (m, m) = false := by
      cases m with
      | plain c => rfl
      | bar inCode => cases inCode <;> rfl
    rw [List.zip_cons_cons, List.countP_cons_of_neg (by simp [hm]), ih]

/-- The bars outside of code spans that are left without a backslash in a cell are those that the
scan takes for code though they are not.  There are none if in the line no run of backticks in a code
span stands behind an odd number of backslashes. -/
theorem exposedBars_escapeCellLine (line : Text) :
    exposedBars (escapeCellLine line) = overlookedBars line ∧
      (Reader.start.slashed line = false → exposedBars (escapeCellLine line) = 0) := by
  have hexposed : exposedBars (escapeCellLine line) = overlookedBars line := by
    rw [escapeCellLine, exposedBars_trim]
    exact accounted_of_inStep (inStep_start line)
  refine ⟨hexposed, fun hslashed => ?_⟩
  have hview : Reader.start.view line = meetFrom 0 0 line :=
    view_eq_meetFrom (inStep_start line) (fun _ => rfl) hslashed
  rw [hexposed, overlookedBars, hview, overlooked_zip_self]

/-- A bar in a code span, one outside of it, and one behind a backtick that is escaped. -/
theorem bars_around_code_escaped :
    let line := "\x60a|b\x60 | \\\x60c|d\x60".toList
    escapeCellLine line = "\x60a|b\x60 \\| \\\x60c\\|d\x60".toList ∧
      Reader.start.slashed line = false ∧ exposedBars (escapeCellLine line) = 0 :=
  ⟨rfl, rfl, (exposedBars_escapeCellLine _).2 rfl⟩

/-- Two code spans with a bar between them, the first one ending in a backslash.  The scan skips the
backtick that closes it, so the bar is left as it is. -/
theorem bar_behind_code_exposed :
    let line := codeSpan "a\\".toList ++ "|".toList ++ codeSpan "b".toList
    line = "\x60a\\\x60|\x60b\x60".toList ∧ escapeCellLine line = line ∧
      exposedBars (escapeCellLine line) = 1 :=
  ⟨rfl, rfl, rfl⟩

end Hypermark.Markdown
