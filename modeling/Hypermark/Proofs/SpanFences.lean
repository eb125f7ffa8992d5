import Hypermark.Proofs.CodeSpans
import Hypermark.Proofs.LineBreaks

/-!
# Fences of code spans

The fence of a code span is one backtick longer than the longest run in the code, and a space parts
it from a backtick at the edge of the code.  So the run at either end of a span is no longer than the
fence, and nothing between the two is long enough to close it.

* `LongestRun`: a length that is reached by a run of backticks and not exceeded by any.
* `longestRun_longestBackticks`: the longest run is what the renderer takes for it.
* `codeSpan_closed_by_own_end`: the shape of a code span, and how it is read.
-/

namespace Hypermark.Markdown

open Text

/-! ## The longest run -/

/-- The longest run of backticks in the text has `n` of them. -/
structure LongestRun (n : Nat) (t : Text) : Prop where
  occurs : backticks n <:+: t
  longest : ∀ m, backticks m <:+: t → m ≤ n

/-- Every run that is counted stands in the text. -/
theorem infix_of_mem_runLengths {n : Nat} {t : Text} (h : n ∈ runLengths isBacktick t) :
    backticks n <:+: t := by
  induction t using backticks_induction with
  | nil => cases h
  | char c t hc ih =>
    rw [runLengths_char hc] at h
    exact List.infix_cons (ih h)
  | run m t ht ih =>
    rw [runLengths_run m ht] at h
    rcases List.mem_cons.mp h with rfl | h
    · exact (List.prefix_append _ t).isInfix
    · exact (ih h).trans (List.suffix_append _ t).isInfix

theorem infix_longestBackticks (t : Text) : backticks (longestBackticks t) <:+: t := by
  cases hn : longestBackticks t with
  | zero => exact List.nil_infix
  | succ k =>
    -- a counted run must exceed `k`, and no run exceeds the longest one
    have hexceeds : ¬∀ n ∈ runLengths isBacktick t, n ≤ k := by
      rw [← longestRun_le_iff]
      show ¬longestBackticks t ≤ k
      omega
    push Not at hexceeds
    obtain ⟨n, hmem, hlt⟩ := hexceeds
    have hrun := infix_of_mem_runLengths hmem
    have hle := le_longestBackticks hrun
    obtain rfl : n = k + 1 := by omega
    exact hrun

theorem longestRun_longestBackticks (t : Text) : LongestRun (longestBackticks t) t :=
  ⟨infix_longestBackticks t, fun _ => le_longestBackticks⟩

/-! ## Spans -/

/-- Code that is not blank is put on one line between two runs of backticks, each one longer than the
longest run of the code.  What stands between them touches neither, has no run that is as long, and
is the code but for white space at its ends.  So a reader finds it again in front of any text that
does not go on with a backtick. -/
theorem codeSpan_closed_by_own_end {t : Text} (h : spanContent t ≠ []) :
    ∃ n body, LongestRun n (spanContent t) ∧
      codeSpan t = backticks (n + 1) ++ body ++ backticks (n + 1) ∧
      body.head? ≠ some backtick ∧ body.getLast? ≠ some backtick ∧
      (∀ m, backticks m <:+: body → m ≤ n) ∧ trim body = spanContent t ∧
      '\n' ∉ codeSpan t ∧ '\r' ∉ codeSpan t ∧
      ∀ rest : Text, rest.head? ≠ some backtick →
        codeSpans (codeSpan t ++ rest) = body :: codeSpans rest := by
  have hfits := fitsFence_spanBody h
  refine ⟨longestBackticks (spanContent t), spanBody t, longestRun_longestBackticks _, codeSpan_eq h,
    hfits.opens, hfits.ends, fun m hm => ?_, trim_spanBody t, not_mem_codeSpan (.inr rfl) t,
    not_mem_codeSpan (.inl rfl) t, fun rest hrest => ?_⟩
  · rw [← longestBackticks_spanBody]
    exact le_longestBackticks hm
  · rw [codeSpan_eq h]
    exact codeSpans_span_append (spanBody_ne_nil h) hfits hrest

/-- Code on two lines that starts with one backtick and ends in two. -/
theorem ticked_code_closed_by_own_end :
    let t := "\x60a\r\n\nb\x60\x60".toList
    spanContent t ≠ [] ∧ codeSpan t = "\x60\x60\x60 \x60a b\x60\x60 \x60\x60\x60".toList ∧
      ∃ n body, LongestRun n (spanContent t) ∧
        codeSpan t = backticks (n + 1) ++ body ++ backticks (n + 1) ∧
        trim body = "\x60a b\x60\x60".toList ∧ codeSpans (codeSpan t ++ "c".toList) = [body] := by
  intro t
  have hcontent : spanContent t = "\x60a b\x60\x60".toList := by decide +kernel
  have hne : spanContent t ≠ [] := by
    rw [hcontent]
    exact List.cons_ne_nil _ _
  obtain ⟨n, body, hrun, hspan, _, _, _, htrim, _, _, hread⟩ := codeSpan_closed_by_own_end hne
  exact ⟨hne, by decide +kernel, n, body, hrun, hspan, htrim.trans hcontent,
    hread "c".toList (by decide)⟩

end Hypermark.Markdown
