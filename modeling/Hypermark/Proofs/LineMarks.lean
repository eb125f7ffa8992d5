import Hypermark.Proofs.Prose
import Hypermark.Proofs.Recursion
import Hypermark.Proofs.Words

/-!
# Marks of a line

A `br` is white space of the source, but an element of a line that trims its children at the edges
makes up for text there only: it puts a space outside if its children begin or end with one in their
text, while a break at an edge goes without anything in its place.  A line is traced here as a list
of marks, those of its characters and breaks, in which what an element drops is marked as lost.  Two
words are glued together if nothing but lost marks stands between them.

* `carried`: what an element adds to its line for the marks of its children.
* `carried_cases`: letters, with the white space of the two edges around them.
* `words_kept_iff`: what is kept has the words of the source exactly if no two words are glued.
* `map_source_marksAll`: the marks of nodes are those of their text.
-/

namespace Hypermark

open Text

/-! ## Marks -/

/-- A character or break of a line: one that is kept, or white space that was dropped at an edge. -/
inductive Mark where
  | shown (c : Char)
  | hardBreak
  | lost (c : Char) (h : isSpace c = true)
deriving DecidableEq

namespace Mark

/-- What the source has at this place. -/
def source : Mark → Char
  | shown c => c
  | hardBreak => '\n'
  | lost c _ => c

/-- What is kept of it. -/
def kept : Mark → Text
  | shown c => [c]
  | hardBreak => ['\n']
  | lost _ _ => []

/-- A character that does not collapse. -/
def isLetter : Mark → Bool
  | shown c => !isSpace c
  | _ => false

/-- White space of a text. -/
def isSpaced : Mark → Bool
  | shown c => isSpace c
  | _ => false

def isLost : Mark → Bool
  | lost _ _ => true
  | _ => false

/-- The mark at an edge of an element: a letter stays, a break is lost, and white space is lost
unless the edge keeps it. -/
def atEdge (keep : Bool) : Mark → Mark
  | shown c => if h : isSpace c = true ∧ keep = false then lost c h.1 else shown c
  | hardBreak => lost '\n' rfl
  | lost c h => lost c h

theorem source_atEdge (keep : Bool) (m : Mark) : (m.atEdge keep).source = m.source := by
  cases m with
  | shown c =>
    show (if h : isSpace c = true ∧ keep = false then lost c h.1 else shown c).source = c
    split <;> rfl
  | hardBreak => rfl
  | lost c h => rfl

end Mark

/-- The kept text of some marks. -/
def keptText (ms : List Mark) : Text := ms.flatMap Mark.kept

/-- The first mark that is not lost is white space of a text. -/
def startsSpaced (ms : List Mark) : Bool := (ms.find? fun m => !m.isLost).any Mark.isSpaced

/-- What an element adds to the line for the marks of its children. -/
def carried (ms : List Mark) : List Mark :=
  let rest := ms.dropWhile (!·.isLetter)
  if rest.isEmpty then ms.map (Mark.atEdge true)
  else
    (ms.takeWhile (!·.isLetter)).map (Mark.atEdge (startsSpaced ms)) ++
      rest.rdropWhile (!·.isLetter) ++
        (rest.rtakeWhile (!·.isLetter)).map (Mark.atEdge (startsSpaced ms.reverse))

/-- A word goes on behind lost marks, `behind` telling if there was one already. -/
def resumes (behind : Bool) : List Mark → Bool
  | .lost _ _ :: ms => resumes true ms
  | .shown c :: _ => behind && !isBlank c
  | _ => false

/-- Two words have nothing but lost marks between them. -/
def glues : List Mark → Bool
  | [] => false
  | .shown c :: ms => (!isBlank c && resumes false ms) || glues ms
  | _ :: ms => glues ms

theorem keptText_append (ms ks : List Mark) : keptText (ms ++ ks) = keptText ms ++ keptText ks :=
  List.flatMap_append

theorem keptText_shown (t : Text) : keptText (t.map .shown) = t := by
  induction t with
  | nil => rfl
  | cons c t ih => exact congrArg (c :: ·) ih

/-- What is kept of marks without letters is white space. -/
theorem spaces_keptText_iff {ms : List Mark} :
    (∀ c ∈ keptText ms, isSpace c = true) ↔ ∀ m ∈ ms, m.isLetter = false := by
  rw [keptText, List.forall_mem_flatMap]
  refine forall₂_congr fun m _ => ?_
  cases m with
  | shown c => simp [Mark.kept, Mark.isLetter]
  | hardBreak => simp [Mark.kept, Mark.isLetter, isSpace]
  | lost c hc => simp [Mark.kept, Mark.isLetter]

theorem map_source_carried (ms : List Mark) :
    (carried ms).map Mark.source = ms.map Mark.source := by
  have hedge : ∀ keep (ks : List Mark),
      (ks.map (Mark.atEdge keep)).map Mark.source = ks.map Mark.source := by
    intro keep ks
    rw [List.map_map]
    exact List.map_congr_left fun m _ => m.source_atEdge keep
  rw [carried]
  split
  · exact hedge true ms
  · rw [List.map_append, List.map_append, hedge, hedge, ← List.map_append, ← List.map_append,
      List.append_assoc, List.rdropWhile_append_rtakeWhile, List.takeWhile_append_dropWhile]

/-! ## Words of marks -/

theorem resumes_true (ms : List Mark) : resumes true ms = opensWord (keptText ms) := by
  induction ms with
  | nil => rfl
  | cons m ms ih =>
    cases m with
    | shown c => exact Bool.true_and _
    | hardBreak => rfl
    | lost c h => exact ih

/-- What is kept goes on with a word if the source does, or does so behind lost marks. -/
theorem opensWord_kept (ms : List Mark) : opensWord (keptText ms) =
    (opensWord (ms.map Mark.source) || resumes false ms) := by
  cases ms with
  | nil => rfl
  | cons m ms =>
    cases m with
    | shown c => exact (Bool.or_false _).symm
    | hardBreak => rfl
    | lost c h =>
      have hc : opensWord (c :: ms.map Mark.source) = false := by
        simp [opensWord, isBlank_of_isSpace h]
      show opensWord (keptText ms) = (opensWord (c :: ms.map Mark.source) || resumes true ms)
      rw [hc, Bool.false_or, resumes_true]

/-- The marks give at most as many words as the source has. -/
theorem length_words_kept_le (ms : List Mark) :
    (words (keptText ms)).length ≤ (words (ms.map Mark.source)).length := by
  induction ms with
  | nil => exact Nat.le_refl _
  | cons m ms ih =>
    cases m with
    | hardBreak =>
      show (words ('\n' :: keptText ms)).length ≤ (words ('\n' :: ms.map Mark.source)).length
      rwa [gauge_words.cons (by decide), gauge_words.cons (by decide)]
    | lost c h =>
      show (words (keptText ms)).length ≤ (words (c :: ms.map Mark.source)).length
      rwa [gauge_words.cons (isBlank_of_isSpace h)]
    | shown c =>
      show (words (c :: keptText ms)).length ≤ (words (c :: ms.map Mark.source)).length
      by_cases hc : isBlank c = true
      · rwa [gauge_words.cons hc, gauge_words.cons hc]
      · rw [words_cons_letter _ (Bool.eq_false_iff.mpr hc), opensWord_kept,
          words_cons_letter _ (Bool.eq_false_iff.mpr hc)]
        cases opensWord (ms.map Mark.source) with
        | true => simpa using ih
        | false =>
          cases resumes false ms with
          | true => simp; omega
          | false => simpa using ih

theorem modifyHead_cons_inj {c : Char} {xs ys : List Text} :
    xs.modifyHead (c :: ·) = ys.modifyHead (c :: ·) ↔ xs = ys := by
  cases xs <;> cases ys <;> simp

/-- The marks that are kept have the words of the source exactly if no two words are glued. -/
theorem words_kept_iff (ms : List Mark) :
    words (keptText ms) = words (ms.map Mark.source) ↔ glues ms = false := by
  induction ms with
  | nil => exact iff_of_true rfl rfl
  | cons m ms ih =>
    cases m with
    | hardBreak =>
      show words ('\n' :: keptText ms) = words ('\n' :: ms.map Mark.source) ↔ glues ms = false
      rwa [gauge_words.cons (by decide), gauge_words.cons (by decide)]
    | lost c h =>
      show words (keptText ms) = words (c :: ms.map Mark.source) ↔ glues ms = false
      rwa [gauge_words.cons (isBlank_of_isSpace h)]
    | shown c =>
      show words (c :: keptText ms) = words (c :: ms.map Mark.source) ↔ _
      rw [glues, Bool.or_eq_false_iff, ← ih]
      by_cases hc : isBlank c = true
      · rw [gauge_words.cons hc, gauge_words.cons hc, hc]
        simp
      · rw [words_cons_letter _ (Bool.eq_false_iff.mpr hc), opensWord_kept,
          words_cons_letter _ (Bool.eq_false_iff.mpr hc), Bool.eq_false_iff.mpr hc]
        cases hglued : resumes false ms with
        | false =>
          rw [Bool.or_false]
          split
          · simp [modifyHead_cons_inj]
          · simp
        | true =>
          have hsource : opensWord (ms.map Mark.source) = false := by
            cases ms with
            | nil => rfl
            | cons m ms =>
              cases m with
              | shown d => cases hglued
              | hardBreak => cases hglued
              | lost d h => simp [opensWord, Mark.source, isBlank_of_isSpace h]
          refine iff_of_false (fun heq => ?_) (by simp)
          have hlength := congrArg List.length heq
          have hle := length_words_kept_le ms
          simp [hsource] at hlength
          omega

/-! ## The ends of a list of marks -/

theorem startsSpaced_append_of_lost {ms : List Mark} (h : ∀ m ∈ ms, m.isLost = true)
    (ks : List Mark) : startsSpaced (ms ++ ks) = startsSpaced ks := by
  have hnone : ms.find? (fun m => !m.isLost) = none := by
    rw [List.find?_eq_none]
    intro m hm
    simp [h m hm]
  rw [startsSpaced, List.find?_append, hnone, Option.none_or]
  rfl

theorem startsSpaced_append_of_kept {ms : List Mark} (h : ¬∀ m ∈ ms, m.isLost = true)
    (ks : List Mark) : startsSpaced (ms ++ ks) = startsSpaced ms := by
  obtain ⟨m, hm⟩ : ∃ m, ms.find? (fun m => !m.isLost) = some m := by
    rw [← Option.isSome_iff_exists, List.find?_isSome]
    by_contra hnone
    refine h fun m hm => ?_
    by_contra hkept
    exact hnone ⟨m, hm, by simpa using hkept⟩
  rw [startsSpaced, List.find?_append, startsSpaced, hm, Option.some_or]

/-- The marks begin and end with letters. -/
structure Lettered (ms : List Mark) : Prop where
  starts : ∃ m s, ms = m :: s ∧ m.isLetter = true
  ends : ∃ s m, ms = s ++ [m] ∧ m.isLetter = true

theorem exists_of_isLetter {m : Mark} (h : m.isLetter = true) :
    ∃ c, m = .shown c ∧ isSpace c = false := by
  cases m with
  | shown c => exact ⟨c, rfl, by simpa [Mark.isLetter] using h⟩
  | hardBreak => cases h
  | lost c hc => cases h

namespace Lettered

variable {mid : List Mark} (h : Lettered mid)
include h

theorem solid : Inline.Solid (keptText mid) where
  starts := by
    obtain ⟨m, s, rfl, hm⟩ := h.starts
    obtain ⟨c, rfl, hc⟩ := exists_of_isLetter hm
    exact ⟨c, keptText s, rfl, hc⟩
  ends := by
    obtain ⟨s, m, rfl, hm⟩ := h.ends
    obtain ⟨c, rfl, hc⟩ := exists_of_isLetter hm
    exact ⟨keptText s, c, keptText_append s [.shown c], hc⟩

theorem startsSpaced_append (ks : List Mark) : startsSpaced (mid ++ ks) = false := by
  obtain ⟨m, s, rfl, hm⟩ := h.starts
  obtain ⟨c, rfl, hc⟩ := exists_of_isLetter hm
  exact hc

theorem reverse : Lettered mid.reverse where
  starts := by
    obtain ⟨s, m, rfl, hm⟩ := h.ends
    exact ⟨m, s.reverse, by simp, hm⟩
  ends := by
    obtain ⟨m, s, rfl, hm⟩ := h.starts
    exact ⟨s.reverse, m, by simp, hm⟩

end Lettered

/-! ## What an element adds -/

theorem isSpaced_atEdge (keep : Bool) {m : Mark} (h : m.isLetter = false) :
    (m.atEdge keep).isSpaced = (keep && m.isSpaced) ∧
      ((m.atEdge keep).isLost = true ∨ (m.atEdge keep).isSpaced = true) := by
  cases m with
  | shown c =>
    have hc : isSpace c = true := by simpa [Mark.isLetter] using h
    cases keep <;> simp [Mark.atEdge, Mark.isSpaced, Mark.isLost, hc]
  | hardBreak => simp [Mark.atEdge, Mark.isSpaced, Mark.isLost]
  | lost c hc => simp [Mark.atEdge, Mark.isSpaced, Mark.isLost]

theorem any_isSpaced_atEdge (keep : Bool) {ms : List Mark} (h : ∀ m ∈ ms, m.isLetter = false) :
    (ms.map (Mark.atEdge keep)).any Mark.isSpaced = (keep && ms.any Mark.isSpaced) := by
  induction ms with
  | nil => exact (Bool.and_false keep).symm
  | cons m ms ih =>
    rw [List.forall_mem_cons] at h
    rw [List.map_cons, List.any_cons, List.any_cons, ih h.2, (isSpaced_atEdge keep h.1).1,
      Bool.and_or_distrib_left]

/-- White space at the front is white space in front of the letters. -/
theorem any_isSpaced_of_startsSpaced {l mid r : List Mark} (hmid : Lettered mid)
    (h : startsSpaced (l ++ mid ++ r) = true) : l.any Mark.isSpaced = true := by
  rw [List.append_assoc] at h
  by_cases hl : ∀ m ∈ l, m.isLost = true
  · rw [startsSpaced_append_of_lost hl, hmid.startsSpaced_append] at h
    cases h
  · rw [startsSpaced_append_of_kept hl, startsSpaced] at h
    cases hfind : l.find? fun m => !m.isLost with
    | none =>
      rw [hfind] at h
      cases h
    | some m =>
      rw [hfind] at h
      exact List.any_eq_true.mpr ⟨m, List.mem_of_find?_eq_some hfind, h⟩

/-- Either there is no letter among the marks, or there is a part from letter to letter with the
white space of the two edges around it. -/
theorem carried_cases (ms : List Mark) :
    ((∀ m ∈ ms, m.isLetter = false) ∧ carried ms = ms.map (Mark.atEdge true)) ∨
      ∃ l mid r, ms = l ++ mid ++ r ∧ (∀ m ∈ l, m.isLetter = false) ∧ Lettered mid ∧
        (∀ m ∈ r, m.isLetter = false) ∧ carried ms =
          l.map (Mark.atEdge (startsSpaced ms)) ++ mid ++
            r.map (Mark.atEdge (startsSpaced ms.reverse)) := by
  have hnone : ∀ {m : Mark}, (!m.isLetter) = true → m.isLetter = false := fun hm => by
    simpa using hm
  have hlead : ∀ m ∈ ms.takeWhile (!·.isLetter), m.isLetter = false := fun m hm =>
    hnone (List.mem_takeWhile_imp (p := fun m : Mark => !m.isLetter) hm)
  have htrail : ∀ ks : List Mark, ∀ m ∈ ks.rtakeWhile (!·.isLetter), m.isLetter = false :=
    fun ks m hm => hnone (List.mem_rtakeWhile_imp (p := fun m : Mark => !m.isLetter) hm)
  rw [carried]
  cases hrest : ms.dropWhile (!·.isLetter) with
  | nil => exact .inl ⟨fun m hm => hnone (List.dropWhile_eq_nil_iff.mp hrest m hm), if_pos rfl⟩
  | cons m s =>
    have hm : m.isLetter = true := by
      have hnot := List.head?_dropWhile_not (fun m : Mark => !m.isLetter) ms
      rw [hrest] at hnot
      simpa using hnot
    refine .inr ⟨ms.takeWhile (!·.isLetter), (m :: s).rdropWhile (!·.isLetter),
      (m :: s).rtakeWhile (!·.isLetter), ?_, hlead, ⟨?_, ?_⟩, htrail _, if_neg (by simp)⟩
    · rw [List.append_assoc, List.rdropWhile_append_rtakeWhile, ← hrest,
        List.takeWhile_append_dropWhile]
    · exact ⟨m, s.rdropWhile (!·.isLetter), rdropWhile_append_cons (by simp [hm]) [] s, hm⟩
    · have hne : (m :: s).rdropWhile (!·.isLetter) ≠ [] := by
        rw [show m :: s = [] ++ m :: s from rfl, rdropWhile_append_cons (by simp [hm])]
        exact List.cons_ne_nil _ _
      refine ⟨_, _, (List.dropLast_concat_getLast hne).symm, ?_⟩
      simpa using List.rdropWhile_last_not (fun m : Mark => !m.isLetter) _ hne

/-! ## Nodes -/

namespace Node

mutual

/-- The visible text of a node with a line break for every `br`. -/
def brokenText : Node → Text
  | text t => Markdown.escapeAngles t
  | element name attrs cs =>
    match (element name attrs cs).role with
    | .ignored => []
    | .lineBreak => ['\n']
    | _ => brokenTexts cs
  | comment _ => []
  | directive _ _ => []

def brokenTexts : List Node → Text
  | [] => []
  | n :: ns => brokenText n ++ brokenTexts ns

end

mutual

/-- The marks that a node leaves in a line. -/
def marks : Node → List Mark
  | text t => (Markdown.escapeAngles t).map .shown
  | element name attrs cs =>
    match (element name attrs cs).role with
    | .ignored => []
    | .lineBreak => [.hardBreak]
    | .link | .strong | .emphasis => carried (marksAll cs)
    | _ => marksAll cs
  | comment _ => []
  | directive _ _ => []

def marksAll : List Node → List Mark
  | [] => []
  | n :: ns => marks n ++ marksAll ns

end

theorem map_source_marksAll_of {ns : List Node}
    (h : ∀ n ∈ ns, n.Throughout fun n => n.marks.map Mark.source = n.brokenText) :
    (marksAll ns).map Mark.source = brokenTexts ns := by
  induction ns with
  | nil => rfl
  | cons n ns ih =>
    rw [List.forall_mem_cons] at h
    rw [marksAll, brokenTexts, List.map_append, h.1.here, ih h.2]

theorem map_source_marks (n : Node) :
    n.Throughout fun n => n.marks.map Mark.source = n.brokenText := by
  refine Node.throughout (fun n h => ?_) n
  cases n with
  | text t =>
    rw [marks, brokenText, List.map_map]
    exact List.map_id' _
  | comment t => rfl
  | directive k t => rfl
  | element name attrs cs =>
    have hbelow : (marksAll cs).map Mark.source = brokenTexts cs := map_source_marksAll_of h
    rw [marks, brokenText]
    cases (element name attrs cs).role with
    | ignored => rfl
    | lineBreak => rfl
    | link => exact (map_source_carried _).trans hbelow
    | strong => exact (map_source_carried _).trans hbelow
    | emphasis => exact (map_source_carried _).trans hbelow
    | _ => exact hbelow

/-- Lost or kept, every character of the text has its mark. -/
theorem map_source_marksAll (ns : List Node) : (marksAll ns).map Mark.source = brokenTexts ns :=
  map_source_marksAll_of fun n _ => map_source_marks n

end Node

end Hypermark
