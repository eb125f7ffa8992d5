import Hypermark.Proofs.FenceScan

/-!
# The scan over a cell

The scan that escapes the bars of a cell goes over it in pieces: a backslash with the character
after it, a run of backticks, any other character.  Which bars it finds escaped already depends on
the backslashes alone.  Whether it takes a bar for code depends on the backticks before it and, as
no span is opened that is not closed again, on those after it.

* `scan_induction`: the pieces of a text.
* `escapePipesFrom_eq`: the scan writes what it meets.
* `map_opened_meetFrom`: the bars that the scan meets are the live ones, in code or not.
* `guarded_escapePipesFrom`: the result is the text with backslashes before some bars.
-/

namespace Hypermark.Markdown

open Text

/-! ## Live bars -/

/-- A character of a line.  A bar is told apart if it is live, that is not escaped; it may stand in
code. -/
inductive Met where
  | plain (c : Char)
  | bar (inCode : Bool)
deriving DecidableEq, Repr

namespace Met

def source : Met → Char
  | plain c => c
  | bar _ => '|'

/-- A live bar outside of code gets a backslash. -/
def written : Met → Text
  | plain c => [c]
  | bar inCode => if inCode then ['|'] else ['\\', '|']

def isBar : Met → Bool
  | plain _ => false
  | bar _ => true

/-- Whether it stands in code, for a live bar. -/
def inCode? : Met → Option Bool
  | plain _ => none
  | bar inCode => some inCode

/-- As it would be met outside of code. -/
def opened : Met → Met
  | plain c => plain c
  | bar _ => bar false

end Met

/-- The characters of a text, `odd` telling if an odd number of backslashes comes directly before.
A bar is live behind an even number of them. -/
def readFrom (odd : Bool) : Text → List Met
  | [] => []
  | c :: cs =>
    (if c = '|' && !odd then .bar false else .plain c) :: readFrom (c == '\\' && !odd) cs

/-- The number of bars that are not escaped. -/
def liveBars (t : Text) : Nat := (readFrom false t).countP Met.isBar

/-! ## What the scan meets -/

/-- The characters as the scan meets them, its state being that of `escapePipesFrom`. -/
def meetFrom (fence copy : Nat) : Text → List Met
  | [] => []
  | c :: cs =>
    match copy with
    | k + 1 => .plain c :: meetFrom fence k cs
    | 0 =>
      if c = '\\' then .plain c :: meetFrom fence 1 cs
      else if c = backtick then
        let more := leadingBackticks cs
        .plain c :: meetFrom (fenceAfter fence (more + 1) (cs.drop more)) more cs
      else if c = '|' then .bar (fence != 0) :: meetFrom fence 0 cs
      else .plain c :: meetFrom fence 0 cs

/-- The second text is the first one with backslashes before some of its bars. -/
inductive Guarded : Text → Text → Prop
  | nil : Guarded [] []
  | keep (c : Char) {s t : Text} : Guarded s t → Guarded (c :: s) (c :: t)
  | guard {s t : Text} : Guarded s t → Guarded ('|' :: s) ('\\' :: '|' :: t)

/-! ## Pieces -/

theorem backticks_succ_append (n : Nat) (t : Text) :
    backticks (n + 1) ++ t = backtick :: (backticks n ++ t) := rfl

theorem leadingBackticks_append (n : Nat) {t : Text} (h : t.head? ≠ some backtick) :
    leadingBackticks (backticks n ++ t) = n := by
  have hrun : (backticks n ++ t).takeWhile isBacktick = backticks n := takeWhile_backticks n h
  rw [leadingBackticks, hrun, backticks, List.length_replicate]

/-- A text begins with the backticks that are counted at its start. -/
theorem exists_eq_backticks_append (t : Text) :
    ∃ rest, t = backticks (leadingBackticks t) ++ rest ∧ rest.head? ≠ some backtick := by
  refine ⟨t.dropWhile isBacktick, ?_, fun h => ?_⟩
  · have hrun : t.takeWhile isBacktick = backticks (leadingBackticks t) :=
      List.eq_replicate_of_mem fun c hc => by
        simpa [isBacktick] using List.mem_takeWhile_imp hc
    rw [← hrun, List.takeWhile_append_dropWhile]
  · have hstop := List.head?_dropWhile_not isBacktick t
    rw [h] at hstop
    exact absurd hstop (by decide)

/-- The pieces that the scan takes from a text. -/
theorem scan_induction {motive : Text → Prop} (nil : motive []) (lone : motive ['\\'])
    (pair : ∀ c t, motive t → motive ('\\' :: c :: t))
    (run : ∀ n t, t.head? ≠ some backtick → motive t → motive (backticks (n + 1) ++ t))
    (char : ∀ c t, c ≠ '\\' → c ≠ backtick → motive t → motive (c :: t)) (t : Text) : motive t := by
  induction h : t.length using Nat.strong_induction_on generalizing t with
  | _ n ih =>
    subst h
    cases t with
    | nil => exact nil
    | cons c t =>
      by_cases hslash : c = '\\'
      · subst hslash
        cases t with
        | nil => exact lone
        | cons d t => exact pair d t (ih _ (by simp only [List.length_cons]; omega) t rfl)
      by_cases htick : c = backtick
      · subst htick
        obtain ⟨rest, heq, hrest⟩ := exists_eq_backticks_append t
        have hlength : rest.length < (backtick :: t).length := by
          rw [heq, List.length_cons, List.length_append]
          omega
        rw [heq]
        exact run _ rest hrest (ih _ hlength rest rfl)
      · exact char c t hslash htick (ih _ (Nat.lt_succ_self _) t rfl)

theorem readFrom_pair (c : Char) (t : Text) :
    readFrom false ('\\' :: c :: t) = .plain '\\' :: .plain c :: readFrom false t := by
  rw [readFrom, readFrom]
  simp

theorem readFrom_char {c : Char} (hslash : c ≠ '\\') (odd : Bool) (t : Text) :
    readFrom odd (c :: t) =
      (if c = '|' && !odd then .bar false else .plain c) :: readFrom false t := by
  have heven : (c == '\\' && !odd) = false := by simp [hslash]
  rw [readFrom, heven]

section Pieces

variable (fence : Nat)

theorem meetFrom_pair (c : Char) (t : Text) :
    meetFrom fence 0 ('\\' :: c :: t) = .plain '\\' :: .plain c :: meetFrom fence 0 t := rfl

theorem meetFrom_copied (s t : Text) :
    meetFrom fence s.length (s ++ t) = s.map .plain ++ meetFrom fence 0 t := by
  induction s with
  | nil => rfl
  | cons c s ih => rw [List.length_cons, List.cons_append, meetFrom, ih, List.map_cons]; rfl

theorem meetFrom_run (n : Nat) {t : Text} (h : t.head? ≠ some backtick) :
    meetFrom fence 0 (backticks (n + 1) ++ t) =
      (backticks (n + 1)).map .plain ++ meetFrom (fenceAfter fence (n + 1) t) 0 t := by
  have hlength : (backticks n).length = n := List.length_replicate
  have hdrop : (backticks n ++ t).drop n = t := List.drop_left' hlength
  have hcopied := meetFrom_copied (fenceAfter fence (n + 1) t) (backticks n) t
  rw [hlength] at hcopied
  rw [backticks_succ_append, meetFrom, if_neg (by decide), if_pos rfl]
  simp only [leadingBackticks_append n h, hdrop, hcopied]
  rfl

theorem meetFrom_char {c : Char} (hslash : c ≠ '\\') (htick : c ≠ backtick) (t : Text) :
    meetFrom fence 0 (c :: t) =
      (if c = '|' then .bar (fence != 0) else .plain c) :: meetFrom fence 0 t := by
  rw [meetFrom, if_neg hslash, if_neg htick]
  split <;> rfl

theorem escapePipesFrom_char {c : Char} (hslash : c ≠ '\\') (htick : c ≠ backtick) (hbar : c ≠ '|')
    (t : Text) : escapePipesFrom fence 0 (c :: t) = c :: escapePipesFrom fence 0 t := by
  rw [escapePipesFrom, if_neg hslash, if_neg htick, if_neg (by simp [hbar])]

end Pieces

/-! ## The scan writes what it meets -/

theorem escapePipesFrom_eq (fence copy : Nat) (t : Text) :
    escapePipesFrom fence copy t = (meetFrom fence copy t).flatMap Met.written := by
  induction t generalizing fence copy with
  | nil => rfl
  | cons c t ih =>
    cases copy with
    | succ k => rw [escapePipesFrom, meetFrom, List.flatMap_cons, ih]; rfl
    | zero =>
      rw [escapePipesFrom, meetFrom]
      by_cases hslash : c = '\\'
      · rw [if_pos hslash, if_pos hslash, List.flatMap_cons, ih]; rfl
      rw [if_neg hslash, if_neg hslash]
      by_cases htick : c = backtick
      · rw [if_pos htick, if_pos htick]
        simp only [List.flatMap_cons, ih]
        rfl
      rw [if_neg htick, if_neg htick]
      by_cases hbar : c = '|'
      · subst hbar
        cases fence with
        | zero => simp [ih, Met.written]
        | succ n => simp [ih, Met.written]
      · simp [hbar, ih, Met.written]

theorem map_source_meetFrom (fence copy : Nat) (t : Text) :
    (meetFrom fence copy t).map Met.source = t := by
  induction t generalizing fence copy with
  | nil => rfl
  | cons c t ih =>
    cases copy with
    | succ k => rw [meetFrom, List.map_cons, ih]; rfl
    | zero =>
      unfold meetFrom
      repeat' split
      all_goals simp_all [Met.source]

/-- The bars that the scan meets are the live ones. -/
theorem map_opened_meetFrom (fence : Nat) (t : Text) :
    (meetFrom fence 0 t).map Met.opened = readFrom false t := by
  induction t using scan_induction generalizing fence with
  | nil => rfl
  | lone => rfl
  | pair c t ih =>
    rw [meetFrom_pair, List.map_cons, List.map_cons, ih, readFrom_pair]
    rfl
  | run n t h ih =>
    have hrun : ∀ m, readFrom false (backticks m ++ t) =
        (backticks m).map .plain ++ readFrom false t := by
      intro m
      induction m with
      | zero => rfl
      | succ m ihm =>
        rw [backticks_succ_append, readFrom_char (by decide), ihm]
        rfl
    rw [meetFrom_run fence n h, List.map_append, ih, hrun, List.map_map]
    rfl
  | char c t hslash htick ih =>
    rw [meetFrom_char fence hslash htick, List.map_cons, ih, readFrom_char hslash]
    by_cases hbar : c = '|' <;> simp [hbar, Met.opened]

theorem guarded_written (ms : List Met) : Guarded (ms.map Met.source) (ms.flatMap Met.written) := by
  induction ms with
  | nil => exact .nil
  | cons m ms ih =>
    cases m with
    | plain c => exact .keep c ih
    | bar inCode =>
      cases inCode with
      | false => exact .guard ih
      | true => exact .keep '|' ih

theorem guarded_escapePipesFrom (fence copy : Nat) (t : Text) :
    Guarded t (escapePipesFrom fence copy t) := by
  have h := guarded_written (meetFrom fence copy t)
  rwa [map_source_meetFrom, ← escapePipesFrom_eq] at h

end Hypermark.Markdown
