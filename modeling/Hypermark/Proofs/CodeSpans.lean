import Mathlib.Algebra.GroupWithZero.Nat
import Hypermark.Proofs.CellScan
import Hypermark.Proofs.Collapsing

/-!
# Code spans read back

A code span is fenced by more backticks than any run in its content, so in front of a text that does
not go on with a backtick it gives the content back.  What a reader finds in any text is bounded by
the runs of backticks that there are.

* `codeSpans`: the spans that a reader finds, a run opening one that the next run like it closes.
* `tickRuns_append`: two runs become one where backticks meet.
* `codeSpans_span_append`: a span in front of a text that does not start with a backtick.
* `sum_cost_codeSpansFrom_le`: every span that is found takes two runs besides those in it.
* `fitsFence_spanBody`: the fence that the renderer chooses is right for what it encloses.
-/

namespace Hypermark

namespace Markdown

open Text

/-! ## The reader -/

/-- The code spans from some point on: `fence` is the length of the open run, zero outside code,
`copy` the number of backticks of a run that still pass, and `code` what the open span holds so
far. -/
def codeSpansFrom (fence copy : Nat) (code : Text) : Text → List Text
  | [] => []
  | c :: cs =>
    match copy with
    | k + 1 => codeSpansFrom fence k code cs
    | 0 =>
      if c = backtick then
        let more := leadingBackticks cs
        if fence = 0 then codeSpansFrom (fenceAfter 0 (more + 1) (cs.drop more)) more [] cs
        else if more + 1 = fence then code :: codeSpansFrom 0 more [] cs
        else codeSpansFrom fence more (code ++ backticks (more + 1)) cs
      else codeSpansFrom fence 0 (code ++ [c]) cs

/-- What stands in the code spans of a text, in order.  A run of backticks opens a span if another
run of its length follows, and the next such run closes it; a backslash has no part in it. -/
def codeSpans (t : Text) : List Text := codeSpansFrom 0 0 [] t

/-- The number of runs of backticks. -/
def tickRuns (t : Text) : Nat := (runLengths isBacktick t).length

/-- What a code span holds between its fences. -/
def spanBody (t : Text) : Text :=
  spanPadding (spanContent t).head? ++ spanContent t ++ spanPadding (spanContent t).getLast?

/-! ## Runs of backticks -/

/-- The pieces that a reader of backticks takes from a text. -/
theorem backticks_induction {motive : Text → Prop} (nil : motive [])
    (run : ∀ n t, t.head? ≠ some backtick → motive t → motive (backticks (n + 1) ++ t))
    (char : ∀ c t, c ≠ backtick → motive t → motive (c :: t)) (t : Text) : motive t := by
  induction h : t.length using Nat.strong_induction_on generalizing t with
  | _ n ih =>
    subst h
    cases t with
    | nil => exact nil
    | cons c t =>
      by_cases htick : c = backtick
      · subst htick
        obtain ⟨rest, heq, hrest⟩ := exists_eq_backticks_append t
        have hlength : rest.length < (backtick :: t).length := by
          rw [heq, List.length_cons, List.length_append]
          omega
        rw [heq]
        exact run _ rest hrest (ih _ hlength rest rfl)
      · exact char c t htick (ih _ (Nat.lt_succ_self _) t rfl)

theorem runLengths_char {c : Char} (h : c ≠ backtick) (t : Text) :
    runLengths isBacktick (c :: t) = runLengths isBacktick t := by
  rw [runLengths, runLengthsFrom, if_neg (by simpa [isBacktick] using h), if_pos rfl]
  rfl

theorem runLengths_run (n : Nat) {t : Text} (h : t.head? ≠ some backtick) :
    runLengths isBacktick (backticks (n + 1) ++ t) = (n + 1) :: runLengths isBacktick t := by
  suffices hrun : ∀ m k, 0 < k + m →
      runLengthsFrom isBacktick k (backticks m ++ t) = (k + m) :: runLengths isBacktick t by
    have hwhole := hrun (n + 1) 0 (by omega)
    rwa [Nat.zero_add] at hwhole
  intro m
  induction m with
  | zero =>
    intro k hk
    have hpos : ¬k = 0 := by omega
    cases t with
    | nil =>
      show (if k = 0 then [] else [k]) = _
      rw [if_neg hpos]
      rfl
    | cons c t =>
      have hc : ¬isBacktick c = true := by simpa [isBacktick] using h
      show (if isBacktick c then _ else if k = 0 then _ else _) = _
      rw [if_neg hc, if_neg hpos, runLengths, runLengthsFrom, if_neg hc, if_pos rfl]
      rfl
  | succ m ih =>
    intro k _
    show runLengthsFrom isBacktick (k + 1) (backticks m ++ t) = _
    rw [ih (k + 1) (by omega), Nat.add_assoc, Nat.add_comm 1 m]

theorem getLast?_run (n : Nat) : (backticks (n + 1)).getLast? = some backtick := by
  rw [backticks, List.replicate_succ', List.getLast?_concat]

theorem exists_eq_run_append {t : Text} (h : t.head? = some backtick) :
    ∃ n rest, t = backticks (n + 1) ++ rest ∧ rest.head? ≠ some backtick := by
  obtain ⟨rest, heq, hrest⟩ := exists_eq_backticks_append t
  cases hn : leadingBackticks t with
  | zero =>
    rw [hn] at heq
    rw [heq] at h
    exact absurd h hrest
  | succ n => exact ⟨n, rest, by rw [← hn]; exact heq, hrest⟩

/-- The runs of two texts, of which two become one where backticks meet at the seam. -/
theorem tickRuns_append (s t : Text) :
    tickRuns (s ++ t) +
        (if s.getLast? = some backtick ∧ t.head? = some backtick then 1 else 0) =
      tickRuns s + tickRuns t := by
  unfold tickRuns
  induction s using backticks_induction with
  | nil => simp [runLengths, runLengthsFrom]
  | char c s hc ih =>
    have hlast : (c :: s).getLast? = some backtick ↔ s.getLast? = some backtick := by
      cases s with
      | nil => simpa using hc
      | cons d s => rw [List.getLast?_cons_cons]
    rw [List.cons_append, runLengths_char hc, runLengths_char hc]
    simpa only [hlast] using ih
  | run n s hs ih =>
    by_cases hnil : s = []
    · subst hnil
      rw [List.append_nil, getLast?_run]
      have hsingle := runLengths_run n hs
      rw [List.append_nil] at hsingle
      have hnone : (runLengths isBacktick []).length = 0 := rfl
      rw [hsingle]
      by_cases ht : t.head? = some backtick
      · obtain ⟨m, rest, rfl, hrest⟩ := exists_eq_run_append ht
        have hmerge : backticks (n + 1) ++ (backticks (m + 1) ++ rest) =
            backticks (n + m + 1 + 1) ++ rest := by
          rw [← List.append_assoc, backticks, backticks, List.replicate_append_replicate, backticks]
          congr 2
          omega
        rw [hmerge, runLengths_run _ hrest, runLengths_run _ hrest, if_pos ⟨rfl, ht⟩]
        simp only [List.length_cons, hnone]
        omega
      · rw [runLengths_run n ht, if_neg fun h => ht h.2]
        simp only [List.length_cons, hnone]
        omega
    · have hlast : (backticks (n + 1) ++ s).getLast? = s.getLast? :=
        List.getLast?_append_of_ne_nil _ hnil
      have hhead : (s ++ t).head? ≠ some backtick := by rwa [List.head?_append_of_ne_nil _ hnil]
      rw [List.append_assoc, runLengths_run n hhead, runLengths_run n hs, hlast]
      simp only [List.length_cons]
      omega

theorem tickRuns_of_not_mem {t : Text} (h : backtick ∉ t) : tickRuns t = 0 := by
  induction t with
  | nil => rfl
  | cons c t ih =>
    rw [List.mem_cons, not_or] at h
    rw [tickRuns, runLengths_char (Ne.symm h.1)]
    exact ih h.2

theorem tickRuns_append_le (s t : Text) : tickRuns (s ++ t) ≤ tickRuns s + tickRuns t := by
  have h := tickRuns_append s t
  omega

theorem tickRuns_run (n : Nat) : tickRuns (backticks (n + 1)) = 1 := by
  have h := runLengths_run n (t := []) (by simp)
  rw [List.append_nil] at h
  rw [tickRuns, h]
  rfl

/-- Text without backticks does not add to the runs. -/
theorem tickRuns_plain_append {s : Text} (hs : backtick ∉ s) (t : Text) :
    tickRuns (s ++ t) = tickRuns t := by
  have h := tickRuns_append s t
  rw [tickRuns_of_not_mem hs, if_neg fun h => hs (List.mem_of_getLast? h.1)] at h
  omega

theorem tickRuns_append_plain (s : Text) {t : Text} (ht : backtick ∉ t) :
    tickRuns (s ++ t) = tickRuns s := by
  have h := tickRuns_append s t
  rw [tickRuns_of_not_mem ht, if_neg fun h => ht (List.mem_of_mem_head? h.2)] at h
  omega

/-- White space at the ends has no part in the runs. -/
theorem tickRuns_trim (t : Text) : tickRuns (trim t) = tickRuns t := by
  have hblank : ∀ w : Text, (∀ c ∈ w, isBlank c = true) → backtick ∉ w := fun w hw hmem =>
    absurd (hw backtick hmem) (by decide)
  have hstart : tickRuns (t.dropWhile isBlank) = tickRuns t := by
    conv => rhs; rw [← List.takeWhile_append_dropWhile (p := isBlank) (l := t)]
    exact (tickRuns_plain_append (hblank _ fun c hc => List.mem_takeWhile_imp hc) _).symm
  have hend := tickRuns_append_plain ((t.dropWhile isBlank).rdropWhile isBlank)
    (hblank ((t.dropWhile isBlank).rtakeWhile isBlank) fun c hc => List.mem_rtakeWhile_imp hc)
  rw [List.rdropWhile_append_rtakeWhile, hstart] at hend
  exact hend.symm

/-! ## Steps of the reader -/

section Steps

variable (fence : Nat) (code : Text)

theorem codeSpansFrom_char {c : Char} (h : c ≠ backtick) (t : Text) :
    codeSpansFrom fence 0 code (c :: t) = codeSpansFrom fence 0 (code ++ [c]) t := by
  rw [codeSpansFrom, if_neg h]

theorem codeSpansFrom_copied (s t : Text) :
    codeSpansFrom fence s.length code (s ++ t) = codeSpansFrom fence 0 code t := by
  induction s with
  | nil => rfl
  | cons c s ih => rw [List.length_cons, List.cons_append, codeSpansFrom, ih]

theorem codeSpansFrom_run (n : Nat) {t : Text} (h : t.head? ≠ some backtick) :
    codeSpansFrom fence 0 code (backticks (n + 1) ++ t) =
      if fence = 0 then codeSpansFrom (fenceAfter 0 (n + 1) t) 0 [] t
      else if n + 1 = fence then code :: codeSpansFrom 0 0 [] t
      else codeSpansFrom fence 0 (code ++ backticks (n + 1)) t := by
  have hlength : (backticks n).length = n := List.length_replicate
  have hdrop : (backticks n ++ t).drop n = t := List.drop_left' hlength
  have hcopied : ∀ f u, codeSpansFrom f n u (backticks n ++ t) = codeSpansFrom f 0 u t := by
    intro f u
    have hpass := codeSpansFrom_copied f u (backticks n) t
    rwa [hlength] at hpass
  rw [backticks_succ_append, codeSpansFrom, if_pos rfl]
  simp only [leadingBackticks_append n h, hdrop, hcopied]

end Steps

/-- Outside of code it does not matter what was read. -/
theorem codeSpansFrom_outside (code : Text) (t : Text) :
    codeSpansFrom 0 0 code t = codeSpans t := by
  unfold codeSpans
  cases t with
  | nil => rfl
  | cons c t =>
    by_cases hc : c = backtick
    · rw [codeSpansFrom, codeSpansFrom, if_pos hc, if_pos hc, if_pos rfl, if_pos rfl]
    · induction t generalizing code c with
      | nil => simp [codeSpansFrom, hc]
      | cons d t ih =>
        rw [codeSpansFrom_char _ _ hc, codeSpansFrom_char _ _ hc]
        by_cases hd : d = backtick
        · rw [codeSpansFrom, codeSpansFrom, if_pos hd, if_pos hd, if_pos rfl, if_pos rfl]
        · rw [ih _ _ hd, ih ([] ++ [c]) _ hd]

theorem codeSpans_plain_append {s : Text} (hs : backtick ∉ s) (t : Text) :
    codeSpans (s ++ t) = codeSpans t := by
  induction s with
  | nil => rfl
  | cons c s ih =>
    rw [List.mem_cons, not_or] at hs
    rw [List.cons_append, codeSpans, codeSpansFrom_char _ _ (Ne.symm hs.1), codeSpansFrom_outside]
    exact ih hs.2

/-! ## A span read back -/

/-- The text can stand between fences of `n` backticks: it does not touch them and has no run of
their length. -/
structure FitsFence (n : Nat) (u : Text) : Prop where
  opens : u.head? ≠ some backtick
  ends : u.getLast? ≠ some backtick
  short : longestBackticks u < n

/-- Inside a span only a run of the length of its fence is no content. -/
theorem codeSpansFrom_inside {n : Nat} {u : Text} (hends : u.getLast? ≠ some backtick)
    (hshort : ∀ m, backticks m <:+: u → m < n) (code : Text) {rest : Text}
    (hrest : rest.head? ≠ some backtick) (hn : 0 < n) :
    codeSpansFrom n 0 code (u ++ (backticks n ++ rest)) = (code ++ u) :: codeSpans rest := by
  have hopen : ¬n = 0 := by omega
  induction u using backticks_induction generalizing code with
  | nil =>
    obtain ⟨m, rfl⟩ := Nat.exists_eq_add_of_le' hn
    rw [List.nil_append, codeSpansFrom_run _ _ _ hrest, if_neg hopen, if_pos rfl, List.append_nil]
    rfl
  | char c u hc ih =>
    have hends' : u.getLast? ≠ some backtick := by
      cases u with
      | nil => simp
      | cons d u => rwa [List.getLast?_cons_cons] at hends
    have hshort' : ∀ m, backticks m <:+: u → m < n := fun m hm =>
      hshort m (hm.trans (List.infix_cons List.infix_rfl))
    rw [List.cons_append, codeSpansFrom_char _ _ hc, ih hends' hshort']
    simp only [List.append_assoc, List.singleton_append]
  | run m u hu ih =>
    have hne : u ≠ [] := by
      rintro rfl
      rw [List.append_nil, getLast?_run] at hends
      exact hends rfl
    have hends' : u.getLast? ≠ some backtick := by
      rwa [List.getLast?_append_of_ne_nil _ hne] at hends
    have hshort' : ∀ k, backticks k <:+: u → k < n := fun k hk =>
      hshort k (hk.trans (List.suffix_append _ _).isInfix)
    have hm : m + 1 < n := hshort _ (List.prefix_append _ _).isInfix
    have hhead : (u ++ (backticks n ++ rest)).head? ≠ some backtick := by
      rwa [List.head?_append_of_ne_nil _ hne]
    rw [List.append_assoc, codeSpansFrom_run _ _ _ hhead, if_neg hopen, if_neg (by omega),
      ih hends' hshort', List.append_assoc]

theorem mem_runLengths {u : Text} (hends : u.getLast? ≠ some backtick) (n : Nat) {rest : Text}
    (hrest : rest.head? ≠ some backtick) :
    n + 1 ∈ runLengths isBacktick (u ++ (backticks (n + 1) ++ rest)) := by
  induction u using backticks_induction with
  | nil =>
    rw [List.nil_append, runLengths_run n hrest]
    exact List.mem_cons_self ..
  | char c u hc ih =>
    rw [List.cons_append, runLengths_char hc]
    refine ih ?_
    cases u with
    | nil => simp
    | cons d u => rwa [List.getLast?_cons_cons] at hends
  | run m u hu ih =>
    have hne : u ≠ [] := by
      rintro rfl
      rw [List.append_nil, getLast?_run] at hends
      exact hends rfl
    have hhead : (u ++ (backticks (n + 1) ++ rest)).head? ≠ some backtick := by
      rwa [List.head?_append_of_ne_nil _ hne]
    rw [List.append_assoc, runLengths_run m hhead]
    rw [List.getLast?_append_of_ne_nil _ hne] at hends
    exact List.mem_cons_of_mem _ (ih hends)

/-- A span in front of a text that does not start with a backtick is found as it was written. -/
theorem codeSpans_span_append {n : Nat} {u : Text} (hne : u ≠ []) (hu : FitsFence n u) {rest : Text}
    (hrest : rest.head? ≠ some backtick) :
    codeSpans (backticks n ++ u ++ backticks n ++ rest) = u :: codeSpans rest := by
  obtain ⟨m, rfl⟩ := Nat.exists_eq_add_of_le' (Nat.zero_lt_of_lt hu.short)
  have hhead : (u ++ (backticks (m + 1) ++ rest)).head? ≠ some backtick := by
    rw [List.head?_append_of_ne_nil _ hne]
    exact hu.opens
  have hopens : fenceAfter 0 (m + 1) (u ++ (backticks (m + 1) ++ rest)) = m + 1 := by
    rw [fenceAfter, if_pos rfl, if_pos]
    exact List.contains_iff_mem.mpr (mem_runLengths hu.ends m hrest)
  have hshort : ∀ k, backticks k <:+: u → k < m + 1 := fun k hk =>
    Nat.lt_of_le_of_lt (le_longestBackticks hk) hu.short
  rw [List.append_assoc, List.append_assoc, codeSpans, codeSpansFrom_run _ _ _ hhead, if_pos rfl,
    hopens, codeSpansFrom_inside hu.ends hshort [] hrest (Nat.succ_pos m), List.nil_append]

/-! ## What a reading costs -/

/-- The runs that a span takes: those in it and its two fences. -/
def spanCost (u : Text) : Nat := tickRuns u + 2

/-- The spans that are found have no more runs than the text; an open span has used one for its
fence and those that it holds. -/
theorem sum_cost_codeSpansFrom_le (fence : Nat) (code t : Text) :
    ((codeSpansFrom fence 0 code t).map spanCost).sum ≤
      tickRuns t + if fence = 0 then 0 else tickRuns code + 1 := by
  induction t using backticks_induction generalizing fence code with
  | nil => exact Nat.zero_le _
  | char c t hc ih =>
    have hcode : tickRuns (code ++ [c]) = tickRuns code :=
      tickRuns_append_plain code (by simpa using Ne.symm hc)
    have htail := ih fence (code ++ [c])
    rw [hcode] at htail
    rw [codeSpansFrom_char _ _ hc, tickRuns, runLengths_char hc]
    exact htail
  | run n t ht ih =>
    have hruns : tickRuns (backticks (n + 1) ++ t) = tickRuns t + 1 := by
      rw [tickRuns, runLengths_run n ht]
      rfl
    rw [codeSpansFrom_run _ _ _ ht, hruns]
    by_cases hfence : fence = 0
    · have htail := ih (fenceAfter 0 (n + 1) t) []
      have hnil : tickRuns [] = 0 := rfl
      rw [if_pos hfence, if_pos hfence]
      split at htail <;> omega
    · rw [if_neg hfence, if_neg hfence]
      by_cases hclose : n + 1 = fence
      · have htail := ih 0 []
        rw [if_pos rfl] at htail
        rw [if_pos hclose, List.map_cons, List.sum_cons, spanCost]
        omega
      · have htail := ih fence (code ++ backticks (n + 1))
        have hcode := tickRuns_append_le code (backticks (n + 1))
        rw [tickRuns_run] at hcode
        rw [if_neg hfence] at htail
        rw [if_neg hclose]
        omega

/-! ## The spans of the renderer -/

theorem codeSpan_eq {t : Text} (h : spanContent t ≠ []) :
    codeSpan t = backticks (longestBackticks (spanContent t) + 1) ++ spanBody t ++
      backticks (longestBackticks (spanContent t) + 1) := by
  rw [codeSpan, spanBody]
  simp only [List.isEmpty_iff, if_neg h, List.append_assoc]

theorem trim_spanContent (t : Text) : trim (spanContent t) = spanContent t := by
  rw [spanContent, trim_trim]

theorem allBlank_spanPadding (c : Option Char) : allBlank (spanPadding c) = true := by
  unfold spanPadding
  split <;> rfl

theorem trim_spanBody (t : Text) : trim (spanBody t) = spanContent t := by
  have hstart : ∀ (c : Option Char) (u : Text), trim (spanPadding c ++ u) = trim u := by
    intro c u
    unfold spanPadding
    split
    · exact trim_cons_of_blank (by decide) u
    · rfl
  rw [spanBody, trim_append_blank _ (allBlank_spanPadding _), hstart, trim_spanContent]

theorem tickRuns_spanBody (t : Text) : tickRuns (spanBody t) = tickRuns (spanContent t) := by
  rw [← tickRuns_trim, trim_spanBody]

theorem spanBody_ne_nil {t : Text} (h : spanContent t ≠ []) : spanBody t ≠ [] := fun hnil => by
  rw [spanBody, List.append_eq_nil_iff, List.append_eq_nil_iff] at hnil
  exact h hnil.1.2

theorem longestBackticks_spanBody (t : Text) :
    longestBackticks (spanBody t) = longestBackticks (spanContent t) := by
  have hspace : ∀ u : Text, runLengths isBacktick (' ' :: u) = runLengths isBacktick u := fun u =>
    runLengths_char (by decide) u
  have hend : ∀ u : Text, runLengths isBacktick (u ++ [' ']) = runLengths isBacktick u := by
    intro u
    rw [runLengths, runLengthsFrom_append (by decide)]
    exact List.append_nil _
  rw [longestBackticks, longestBackticks, longestRun, longestRun, spanBody, spanPadding,
    spanPadding]
  congr 1
  split <;> split <;>
    simp only [List.nil_append, List.append_nil, List.cons_append, hspace, hend]

/-- The fence of a span is right for what it holds. -/
theorem fitsFence_spanBody {t : Text} (h : spanContent t ≠ []) :
    FitsFence (longestBackticks (spanContent t) + 1) (spanBody t) where
  opens := by
    rw [spanBody, List.append_assoc]
    by_cases hc : (spanContent t).head? = some backtick
    · rw [spanPadding, if_pos hc, List.singleton_append, List.head?_cons]
      decide
    · rw [spanPadding, if_neg hc, List.nil_append, List.head?_append_of_ne_nil _ h]
      exact hc
  ends := by
    rw [spanBody]
    by_cases hc : (spanContent t).getLast? = some backtick
    · rw [spanPadding, spanPadding, if_pos hc, List.getLast?_concat]
      decide
    · rw [spanPadding, spanPadding, if_neg hc, List.append_nil, List.getLast?_append_of_ne_nil _ h]
      exact hc
  short := by
    rw [longestBackticks_spanBody]
    exact Nat.lt_succ_self _

end Markdown

end Hypermark
