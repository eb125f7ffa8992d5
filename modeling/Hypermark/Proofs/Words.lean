import Hypermark.Proofs.Collapsing
import Hypermark.Proofs.Spacing

/-!
# Words of a text

The words of a text are its pieces between white space, so neither the amount of white space nor
what stands at the edges matters.

* `gauge_words`: white space parts two texts into their words.
* `words_collapseSpaces`, `words_trimSpaces`: the words are kept while white space collapses.
* `words_cons_letter`: a letter in front of a text begins its first word or is a word of its own.
-/

namespace Hypermark.Text

variable {c : Char} (t : Text)

/-- White space parts two texts into their words. -/
theorem gauge_words : Gauge words where
  nil := by
    rw [words, List.splitOnP_nil]
    rfl
  part s c t hc := by
    unfold words
    rw [List.splitOnP_append_cons s t hc, List.filter_append]

theorem words_dropWhile : words (t.dropWhile isSpace) = words t :=
  gauge_words.dropWhile (fun _ => isBlank_of_isSpace) t

theorem words_trimSpaces : words (trimSpaces t) = words t :=
  (gauge_words.dropEndWhile (fun _ => isBlank_of_isSpace) _).trans (words_dropWhile t)

/-- The words are kept while white space collapses. -/
theorem words_collapseSpaces : words (collapseSpaces t) = words t := by
  suffices hbehind : ∀ s, words (s ++ collapseSpaces t) = words (s ++ t) from hbehind []
  induction t with
  | nil => exact fun s => rfl
  | cons c t ih =>
    intro s
    by_cases hc : isSpace c = true
    · rw [collapseSpaces_cons_of_isSpace hc, gauge_words.part s _ (by decide), words_dropWhile,
        gauge_words.part s _ (isBlank_of_isSpace hc)]
      exact congrArg _ (ih [])
    · rw [collapseSpaces_cons_of_not (Bool.eq_false_iff.mpr hc), List.append_cons, ih,
        List.append_assoc, List.singleton_append]

/-! ## Letters -/

/-- The text goes on with a character of a word. -/
def opensWord : Bool := t.head?.any (!isBlank ·)

theorem exists_splitOnP_eq : ∃ rest,
    t.splitOnP isBlank = t.takeWhile (!isBlank ·) :: rest := by
  induction t with
  | nil => exact ⟨[], List.splitOnP_nil⟩
  | cons c t ih =>
    obtain ⟨rest, ht⟩ := ih
    rw [List.splitOnP_cons_eq_if_modifyHead]
    by_cases hc : isBlank c = true
    · rw [if_pos hc, List.takeWhile_cons_of_neg (by simp [hc])]
      exact ⟨_, rfl⟩
    · rw [if_neg hc, ht, List.takeWhile_cons_of_pos (by simp [hc])]
      exact ⟨rest, rfl⟩

/-- A letter begins the first word of the text behind it, or is a word of its own. -/
theorem words_cons_letter (hc : isBlank c = false) : words (c :: t) =
    if opensWord t then (words t).modifyHead (c :: ·) else [c] :: words t := by
  obtain ⟨rest, ht⟩ := exists_splitOnP_eq t
  rw [words, List.splitOnP_cons_eq_if_modifyHead, if_neg (by simp [hc]), words, ht,
    List.modifyHead_cons, List.filter_cons_of_pos (by rfl)]
  cases t with
  | nil => rfl
  | cons d t =>
    by_cases hd : isBlank d = true
    · rw [List.takeWhile_cons_of_neg (by simp [hd]), List.filter_cons_of_neg (by simp),
        if_neg (by simp [opensWord, hd])]
    · rw [List.takeWhile_cons_of_pos (by simp [hd]), List.filter_cons_of_pos (by rfl),
        if_pos (by simp [opensWord, hd]), List.modifyHead_cons]

end Hypermark.Text
