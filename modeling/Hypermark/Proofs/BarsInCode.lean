import Hypermark.Proofs.Ink
import Hypermark.Proofs.RowsRead

/-!
# Bars in code

The plain layout scans every line of a cell by itself, the stacked layout scans the value as a whole
and cuts it into lines afterwards.  So a code span that begins on one line and ends on another is
code in the stacked layout only, and the bars in it are left as they are.  The layouts agree on a
value exactly if both scans find the same live bars in code, which holds if no line leaves a run of
backticks open.

* `shown_alike_iff`: when the two layouts show a value alike.
* `codeFlags_eq_of_closes`: the scans find the same if all code spans are closed on their lines.
* `stacked_bars_alike_iff`: the same for a column of a row in the stacked layout.
-/

namespace Hypermark

open Text

namespace Markdown

/-! ## Live bars and code -/

/-- For every live bar of a text, if it stands in code. -/
def codeFlags (t : Text) : List Bool := (meetFrom 0 0 t).filterMap Met.inCode?

/-- The same with every line of the text scanned by itself. -/
def codeFlagsByLine (t : Text) : List Bool := (lines (unifyBreaks t)).flatMap codeFlags

/-- The scan over a line ends outside of code, and every run of backticks that it meets outside of
code opens a span. -/
def closesFrom (fence copy : Nat) : Text → Bool
  | [] => fence == 0
  | c :: cs =>
    match copy with
    | k + 1 => closesFrom fence k cs
    | 0 =>
      if c = '\\' then closesFrom fence 1 cs
      else if c = backtick then
        let more := leadingBackticks cs
        let next := fenceAfter fence (more + 1) (cs.drop more)
        (fence != 0 || next != 0) && closesFrom next more cs
      else closesFrom fence 0 cs

/-! ## What is shown, without white space -/

/-- Neither layout touches a character that is no white space. -/
def isInk (c : Char) : Bool := !isBlank c

def Met.isInk : Met → Bool
  | .plain c => Markdown.isInk c
  | .bar _ => true

theorem isInk_of_isBlank (c : Char) (h : isBlank c = true) : isInk c = false := by
  rw [isInk, h]
  rfl

theorem ink_cellLines (t : Text) : (shown (Table.cellLines t)).flatMap (ink isInk) =
    (pieces t).flatMap fun l => ink isInk (escapePipesFrom 0 0 l) := by
  have hlines : shown (Table.cellLines t) = shown ((pieces t).map escapeCellLine) := by
    have htrim : ∀ l ∈ (pieces t).map escapeCellLine, trim l = l :=
      List.forall_mem_map.mpr fun l _ => trim_escapeCellLine l
    rw [shown_cellLines, shown, (List.map_congr_left htrim).trans (List.map_id _)]
  rw [hlines, ink_shown isInk_of_isBlank, List.flatMap_map]
  simp only [escapeCellLine, (gauge_ink isInk_of_isBlank).trim]

/-- A text with backslashes before some bars is known from its ink. -/
theorem Guarded.eq_of_ink {d s p : Text} (hs : Guarded d s) (hp : Guarded d p) {s' p' : Text}
    (h : ink isInk s ++ s' = ink isInk p ++ p') : s = p ∧ s' = p' := by
  have hslash : ∀ t, ink isInk ('\\' :: t) = '\\' :: ink isInk t := fun t =>
    List.filter_cons_of_pos rfl
  have hbar : ∀ t, ink isInk ('|' :: t) = '|' :: ink isInk t := fun t => List.filter_cons_of_pos rfl
  induction hs generalizing p with
  | nil =>
    cases hp
    exact ⟨rfl, h⟩
  | @keep c d s hs ih =>
    cases hp with
    | @keep _ _ p hp =>
      simp only [ink, List.filter_cons] at h
      have htail : ink isInk s ++ s' = ink isInk p ++ p' := by
        split at h
        · exact (List.cons.inj h).2
        · exact h
      obtain ⟨heq, hrest⟩ := ih hp htail
      exact ⟨by rw [heq], hrest⟩
    | guard hp =>
      rw [hbar, hslash] at h
      exact absurd (List.cons.inj h).1 (by decide)
  | guard hs ih =>
    cases hp with
    | keep _ hp =>
      rw [hbar, hslash] at h
      exact absurd (List.cons.inj h).1 (by decide)
    | guard hp =>
      rw [hslash, hslash, hbar, hbar] at h
      obtain ⟨heq, hrest⟩ := ih hp (List.cons.inj (List.cons.inj h).2).2
      exact ⟨by rw [heq], hrest⟩

theorem eq_of_flatMap_ink {ds ss ps : List Text} (hs : List.Forall₂ Guarded ds ss)
    (hp : List.Forall₂ Guarded ds ps) (h : ss.flatMap (ink isInk) = ps.flatMap (ink isInk)) :
    ss = ps := by
  induction hs generalizing ps with
  | nil => exact (List.forall₂_nil_left_iff.mp hp).symm
  | cons hd _ ih =>
    cases hp with
    | cons hd' hp =>
      rw [List.flatMap_cons, List.flatMap_cons] at h
      obtain ⟨heq, hrest⟩ := hd.eq_of_ink hd' h
      rw [heq, ih hp hrest]

/-! ## The two scans -/

/-- The scan of the value as a whole, without white space. -/
def metWhole (t : Text) : List Met := (meetFrom 0 0 t).filter Met.isInk

/-- The scans of its lines, without white space. -/
def metByLine (t : Text) : List Met :=
  (pieces t).flatMap fun l => (meetFrom 0 0 l).filter Met.isInk

theorem ink_written (ms : List Met) :
    ink isInk (ms.flatMap Met.written) = (ms.filter Met.isInk).flatMap Met.written := by
  induction ms with
  | nil => rfl
  | cons m ms ih =>
    rw [List.flatMap_cons, ink_append, ih]
    cases m with
    | plain c =>
      cases hc : isInk c with
      | true =>
        rw [List.filter_cons_of_pos (show (Met.plain c).isInk = true from hc), List.flatMap_cons,
          Met.written, ink, List.filter_cons_of_pos hc]
        rfl
      | false =>
        rw [List.filter_cons_of_neg (show ¬(Met.plain c).isInk = true by simp [Met.isInk, hc]),
          Met.written, ink, List.filter_cons_of_neg (by simp [hc])]
        rfl
    | bar inCode =>
      rw [List.filter_cons_of_pos rfl, List.flatMap_cons]
      cases inCode <;> rfl

theorem filterMap_inCode?_filter (ms : List Met) :
    (ms.filter Met.isInk).filterMap Met.inCode? = ms.filterMap Met.inCode? := by
  induction ms with
  | nil => rfl
  | cons m ms ih =>
    cases m with
    | plain c =>
      rw [List.filter_cons, List.filterMap_cons_none rfl]
      split
      · rw [List.filterMap_cons_none rfl, ih]
      · exact ih
    | bar inCode =>
      rw [List.filter_cons_of_pos rfl]
      simp only [List.filterMap_cons, Met.inCode?, ih]

theorem filter_map_opened (ms : List Met) :
    (ms.filter Met.isInk).map Met.opened = (ms.map Met.opened).filter Met.isInk := by
  rw [List.filter_map]
  congr 1
  refine List.filter_congr fun m _ => ?_
  cases m <;> rfl

/-- White space apart, the lines of a text are read as they are in the text. -/
theorem filter_readFrom_pieces (odd : Bool) (t : Text) {first : Text} {rest : List Text}
    (h : pieces t = first :: rest) : (readFrom odd t).filter Met.isInk =
      (readFrom odd first).filter Met.isInk ++
        rest.flatMap fun l => (readFrom false l).filter Met.isInk := by
  induction t generalizing odd first rest with
  | nil =>
    obtain ⟨rfl, rfl⟩ := List.cons.inj h
    rfl
  | cons c t ih =>
    obtain ⟨first', rest', hpieces⟩ := exists_pieces_eq_cons t
    cases hc : isBreak c with
    | true =>
      have hblank := isBlank_of_isBreak hc
      have hquiet := quiet_of_isBlank hblank
      rw [pieces_break hc, hpieces] at h
      obtain ⟨rfl, rfl⟩ := List.cons.inj h
      rw [readFrom_char hquiet.1, if_neg (by simp [hquiet.2]),
        List.filter_cons_of_neg (by simp [Met.isInk, isInk, hblank]), ih false hpieces]
      rfl
    | false =>
      rw [pieces_char hc, hpieces] at h
      obtain ⟨rfl, rfl⟩ := List.cons.inj h
      rw [readFrom, readFrom, List.filter_cons, List.filter_cons, ih _ hpieces]
      split
      · rfl
      · split <;> rfl

/-- Both scans meet the same characters, and the same live bars. -/
theorem map_opened_met (t : Text) : (metWhole t).map Met.opened = (metByLine t).map Met.opened := by
  obtain ⟨first, rest, hpieces⟩ := exists_pieces_eq_cons t
  have hread : ∀ l, ((meetFrom 0 0 l).filter Met.isInk).map Met.opened =
      (readFrom false l).filter Met.isInk := fun l => by
    rw [filter_map_opened, map_opened_meetFrom]
  rw [metWhole, hread, filter_readFrom_pieces false t hpieces, metByLine, hpieces, List.map_flatMap,
    List.flatMap_cons]
  simp only [hread]

theorem eq_of_written {ms ns : List Met} (hopened : ms.map Met.opened = ns.map Met.opened)
    (h : ms.flatMap Met.written = ns.flatMap Met.written) : ms = ns := by
  induction ms generalizing ns with
  | nil => exact (List.map_eq_nil_iff.mp hopened.symm).symm
  | cons m ms ih =>
    cases ns with
    | nil => cases hopened
    | cons n ns =>
      obtain ⟨hmn, hrest⟩ := List.cons.inj hopened
      rw [List.flatMap_cons, List.flatMap_cons] at h
      have heq : m = n := by
        cases m with
        | plain c =>
          cases n with
          | plain d => exact hmn
          | bar b => cases hmn
        | bar a =>
          cases n with
          | plain d => cases hmn
          | bar b =>
            cases a <;> cases b <;> first | rfl | exact absurd (List.cons.inj h).1 (by decide)
      subst heq
      rw [ih hrest (List.append_cancel_left h)]

theorem eq_of_inCode? {ms ns : List Met} (hopened : ms.map Met.opened = ns.map Met.opened)
    (h : ms.filterMap Met.inCode? = ns.filterMap Met.inCode?) : ms = ns := by
  induction ms generalizing ns with
  | nil => exact (List.map_eq_nil_iff.mp hopened.symm).symm
  | cons m ms ih =>
    cases ns with
    | nil => cases hopened
    | cons n ns =>
      obtain ⟨hmn, hrest⟩ := List.cons.inj hopened
      cases m with
      | plain c =>
        cases n with
        | plain d =>
          rw [List.filterMap_cons_none rfl, List.filterMap_cons_none rfl] at h
          rw [ih hrest h, show Met.plain c = Met.plain d from hmn]
        | bar b => cases hmn
      | bar a =>
        cases n with
        | plain d => cases hmn
        | bar b =>
          simp only [List.filterMap_cons, Met.inCode?] at h
          obtain ⟨hab, h⟩ := List.cons.inj h
          rw [ih hrest h, show a = b from hab]

theorem inCode?_metWhole (t : Text) : (metWhole t).filterMap Met.inCode? = codeFlags t :=
  filterMap_inCode?_filter _

theorem inCode?_metByLine (t : Text) :
    (metByLine t).filterMap Met.inCode? = codeFlagsByLine t := by
  rw [metByLine, List.filterMap_flatMap, codeFlagsByLine, flatMap_lines rfl]
  simp only [filterMap_inCode?_filter]
  rfl

/-- A value is shown alike in both layouts if the scan of the value and the scans of its lines find
the same live bars in code. -/
theorem shown_alike_iff (t : Text) :
    displayLines (escapeCellLine t) = shown (Table.cellLines t) ↔
      codeFlags t = codeFlagsByLine t := by
  have hwhole : (displayLines (escapeCellLine t)).flatMap (ink isInk) =
      (metWhole t).flatMap Met.written := by
    rw [ink_displayLines isInk_of_isBlank, escapeCellLine, (gauge_ink isInk_of_isBlank).trim,
      escapePipesFrom_eq, ink_written, metWhole]
  have hlines : (shown (Table.cellLines t)).flatMap (ink isInk) =
      (metByLine t).flatMap Met.written := by
    rw [ink_cellLines, metByLine, List.flatMap_assoc]
    simp only [escapePipesFrom_eq, ink_written]
  rw [← inCode?_metWhole, ← inCode?_metByLine]
  constructor
  · intro h
    rw [h, hlines] at hwhole
    rw [eq_of_written (map_opened_met t) hwhole.symm]
  · intro h
    refine eq_of_flatMap_ink (guarded_displayLines t) (guarded_cellLines t) ?_
    rw [hwhole, hlines, eq_of_inCode? (map_opened_met t) h]

/-! ## Spans that are closed on their lines -/

section Closes

variable (fence : Nat)

theorem closesFrom_copied (s t : Text) :
    closesFrom fence s.length (s ++ t) = closesFrom fence 0 t := by
  induction s with
  | nil => rfl
  | cons c s ih => rw [List.length_cons, List.cons_append, closesFrom, ih]

theorem closesFrom_run (n : Nat) {t : Text} (h : t.head? ≠ some backtick) :
    closesFrom fence 0 (backticks (n + 1) ++ t) =
      ((fence != 0 || fenceAfter fence (n + 1) t != 0) &&
        closesFrom (fenceAfter fence (n + 1) t) 0 t) := by
  have hlength : (backticks n).length = n := List.length_replicate
  have hdrop : (backticks n ++ t).drop n = t := List.drop_left' hlength
  have hcopied := closesFrom_copied (fenceAfter fence (n + 1) t) (backticks n) t
  rw [hlength] at hcopied
  rw [backticks_succ_append, closesFrom, if_neg (by decide), if_pos rfl]
  simp only [leadingBackticks_append n h, hdrop, hcopied]

/-- A run that opens or closes a span on its line does so whatever comes after the line. -/
theorem fenceAfter_append {run : Nat} {s : Text} {c : Char} (hc : isBacktick c = false) (t : Text)
    (h : (fence != 0 || fenceAfter fence run s != 0) = true) :
    fenceAfter fence run (s ++ c :: t) = fenceAfter fence run s := by
  unfold fenceAfter at h ⊢
  by_cases hfence : fence = 0
  · have hopens : (runLengths isBacktick s).contains run = true := by
      by_contra hnot
      rw [if_pos hfence, if_neg hnot, hfence] at h
      exact absurd h (by decide)
    have happend : (runLengths isBacktick (s ++ c :: t)).contains run = true := by
      rw [runLengths, runLengthsFrom_append hc, List.contains_iff_mem, List.mem_append]
      exact .inl (List.contains_iff_mem.mp hopens)
    rw [if_pos hfence, if_pos hfence, if_pos hopens, if_pos happend]
  · rw [if_neg hfence, if_neg hfence]

/-- Behind a line on which all spans are closed the scan starts anew. -/
theorem meetFrom_append {b : Char} (hb : isBreak b = true) {l : Text}
    (h : closesFrom fence 0 l = true) (t : Text) :
    meetFrom fence 0 (l ++ b :: t) = meetFrom fence 0 l ++ .plain b :: meetFrom 0 0 t := by
  have hquiet := quiet_of_isBlank (isBlank_of_isBreak hb)
  have htick : b ≠ backtick := by
    rintro rfl
    cases hb
  induction l using scan_induction generalizing fence with
  | nil =>
    have hfence : fence = 0 := beq_iff_eq.mp h
    subst hfence
    rw [List.nil_append, meetFrom_char 0 hquiet.1 htick, if_neg hquiet.2]
    rfl
  | lone =>
    have hfence : fence = 0 := beq_iff_eq.mp h
    subst hfence
    exact meetFrom_pair 0 b t
  | pair c l ih =>
    rw [List.cons_append, List.cons_append, meetFrom_pair, meetFrom_pair, ih fence h]
    rfl
  | run n l hl ih =>
    rw [closesFrom_run fence n hl, Bool.and_eq_true] at h
    have hhead : (l ++ b :: t).head? ≠ some backtick := by
      cases l with
      | nil => simpa using htick
      | cons c l => exact hl
    have hafter := fenceAfter_append fence (beq_eq_false_iff_ne.mpr htick) t h.1
    rw [List.append_assoc, meetFrom_run fence n hhead, meetFrom_run fence n hl, hafter, ih _ h.2,
      List.append_assoc]
  | char c l hslash hctick ih =>
    rw [List.cons_append, meetFrom_char fence hslash hctick, meetFrom_char fence hslash hctick]
    rw [closesFrom, if_neg hslash, if_neg hctick] at h
    rw [ih fence h]
    rfl

end Closes

/-- A text begins with its first piece, and what follows the break has the other pieces. -/
theorem eq_of_pieces_eq {t l : Text} {rest : List Text} (h : pieces t = l :: rest) :
    rest = [] ∧ t = l ∨ ∃ b t', isBreak b = true ∧ t = l ++ b :: t' ∧ pieces t' = rest := by
  induction t generalizing l rest with
  | nil =>
    obtain ⟨rfl, rfl⟩ := List.cons.inj h
    exact .inl ⟨rfl, rfl⟩
  | cons c t ih =>
    cases hc : isBreak c with
    | true =>
      rw [pieces_break hc] at h
      obtain ⟨rfl, rfl⟩ := List.cons.inj h
      exact .inr ⟨c, t, hc, rfl, rfl⟩
    | false =>
      obtain ⟨l', rest', hpieces⟩ := exists_pieces_eq_cons t
      rw [pieces_char hc, hpieces] at h
      obtain ⟨rfl, rfl⟩ := List.cons.inj h
      rcases ih hpieces with ⟨hrest, rfl⟩ | ⟨b, t', hb, rfl, ht'⟩
      · exact .inl ⟨hrest, rfl⟩
      · exact .inr ⟨b, t', hb, rfl, ht'⟩

/-- If all code spans are closed on their lines, the scan of a value finds what the scans of its
lines find. -/
theorem codeFlags_eq_of_closes {t : Text}
    (h : ∀ l ∈ lines (unifyBreaks t), closesFrom 0 0 l = true) :
    codeFlags t = codeFlagsByLine t := by
  have hpieces : ∀ l ∈ pieces t, closesFrom 0 0 l = true := fun l hl => by
    cases l with
    | nil => rfl
    | cons c l =>
      have hmem : c :: l ∈ (pieces t).filter (!·.isEmpty) := List.mem_filter.mpr ⟨hl, rfl⟩
      rw [← filter_lines_unifyBreaks] at hmem
      exact h _ (List.mem_filter.mp hmem).1
  rw [codeFlagsByLine, flatMap_lines rfl]
  clear h
  generalize hls : pieces t = ls at hpieces
  induction ls generalizing t with
  | nil => exact absurd hls (List.splitOnP_ne_nil isBreak t)
  | cons l rest ih =>
    rw [List.forall_mem_cons] at hpieces
    rw [List.flatMap_cons]
    rcases eq_of_pieces_eq hls with ⟨rfl, rfl⟩ | ⟨b, t', hb, rfl, ht'⟩
    · rw [List.flatMap_nil, List.append_nil]
    · rw [← ih ht' hpieces.2, codeFlags, meetFrom_append 0 hb hpieces.1, List.filterMap_append,
        List.filterMap_cons_none rfl]
      rfl

end Markdown

namespace Table

open Markdown

/-- A column of a row in the stacked layout shows its value as the plain layout does, exactly if the
scan of the value and the scans of its lines find the same live bars in code.  That is so if every
line closes its code spans. -/
theorem stacked_bars_alike_iff (values : List Text) (j : Nat) :
    stackedLines values = (stackedGroup values).map joinCells ∧
      (readColumn j (stackedGroup values) = shown (cellLines (values.getD j [])) ↔
        codeFlags (values.getD j []) = codeFlagsByLine (values.getD j [])) ∧
      ((∀ l ∈ lines (unifyBreaks (values.getD j [])), closesFrom 0 0 l = true) →
        readColumn j (stackedGroup values) = shown (cellLines (values.getD j []))) := by
  rw [readColumn_stackedGroup, shown_alike_iff]
  exact ⟨stackedLines_eq values, Iff.rfl, codeFlags_eq_of_closes⟩

/-- A code block in a cell: its fences are on lines of their own, so the bar between them is escaped
in the plain layout and left bare in the stacked one. -/
theorem fence_leaves_bar_bare :
    let fence := "\x60\x60\x60\na|b\n\x60\x60\x60".toList
    cellLines fence = ["\x60\x60\x60".toList, "a\\|b".toList, "\x60\x60\x60".toList] ∧
      stackedLines [fence] = ["\x60\x60\x60".toList, "a|b".toList, "\x60\x60\x60".toList] ∧
      codeFlags fence = [true] ∧ codeFlagsByLine fence = [false] ∧
      (Render.block Options.standard [] (.element "table".toList [] [
        .element "tr".toList [] [.element "th".toList [] [.text "H".toList]],
        .element "tr".toList [] [.element "td".toList [("rowspan".toList, some "2".toList)]
          [.element "pre".toList [] [.text "a|b".toList]]]])).outcome =
        .ok "| H |\n|---|\n| \x60\x60\x60 |\n| a|b |\n| \x60\x60\x60 |".toList :=
  ⟨rfl, rfl, rfl, rfl, rfl⟩

end Table

end Hypermark
