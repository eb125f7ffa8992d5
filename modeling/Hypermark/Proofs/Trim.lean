import Mathlib.Data.List.DropRight
import Hypermark.Text.Blank

/-!
# Trimming

* `rdropWhile_append`: dropping from the end goes on past a part that is dropped altogether.
* `trim_of_none_blank`: a text without white space is left as it is.
* `trim_trim`: trimming twice is trimming once.
-/

namespace Hypermark.Text

variable {q : Char → Bool}

theorem not_allBlank_of_mem {t : Text} {c : Char} (h : c ∈ t) (hc : isBlank c = false) :
    allBlank t = false :=
  List.all_eq_false.mpr ⟨c, h, by rw [hc]; exact Bool.false_ne_true⟩

theorem not_allBlank_of_infix {s t : Text} (hs : allBlank s = false) (h : s <:+: t) :
    allBlank t = false := by
  obtain ⟨c, hc, hblank⟩ := List.all_eq_false.mp hs
  exact not_allBlank_of_mem (h.subset hc) (Bool.eq_false_iff.mpr hblank)

theorem dropWhile_of_none {t : Text} (h : ∀ c ∈ t, q c = false) : t.dropWhile q = t :=
  List.dropWhile_eq_self_iff.mpr fun _ => by simp [h _ (List.getElem_mem _)]

theorem dropEndWhile_of_none {t : Text} (h : ∀ c ∈ t, q c = false) : dropEndWhile q t = t := by
  have hr : ∀ c ∈ t.reverse, q c = false := fun c hc => h c (List.mem_reverse.mp hc)
  rw [dropEndWhile, dropWhile_of_none hr, List.reverse_reverse]

theorem trim_of_none_blank {t : Text} (h : ∀ c ∈ t, isBlank c = false) : trim t = t := by
  rw [trim, trimStart, dropWhile_of_none h, trimEnd, dropEndWhile_of_none h]

/-- A text that keeps its start keeps it when its end is dropped. -/
theorem dropWhile_eq_self_of_isPrefix {s t : Text} (h : s <+: t) (ht : t.dropWhile q = t) :
    s.dropWhile q = s := by
  rw [List.dropWhile_eq_self_iff] at ht ⊢
  intro hs
  rw [h.getElem hs]
  exact ht (Nat.lt_of_lt_of_le hs h.length_le)

/-- Dropping from the end goes on past a part that is dropped altogether. -/
theorem rdropWhile_append {α : Type} (q : α → Bool) (xs ys : List α) :
    (xs ++ ys).rdropWhile q = if ys.all q then xs.rdropWhile q else xs ++ ys.rdropWhile q := by
  induction ys using List.reverseRecOn with
  | nil =>
    rw [List.append_nil]
    rfl
  | append_singleton ys y ih =>
    rw [← List.append_assoc, List.rdropWhile_concat, List.rdropWhile_concat, ih, List.all_append,
      List.all_cons, List.all_nil, Bool.and_true]
    by_cases hy : q y = true
    · rw [if_pos hy, if_pos hy, hy, Bool.and_true]
    · rw [if_neg hy, if_neg hy, Bool.eq_false_iff.mpr hy, Bool.and_false, List.append_assoc]
      rfl

/-- Dropping from the end stops at a character that is kept. -/
theorem rdropWhile_append_cons {α : Type} {q : α → Bool} {x : α} (hx : q x = false)
    (xs ys : List α) : (xs ++ x :: ys).rdropWhile q = xs ++ x :: ys.rdropWhile q := by
  have hstop : (xs ++ [x]).rdropWhile q = xs ++ [x] :=
    List.rdropWhile_concat_neg q xs x (by simp [hx])
  rw [List.append_cons, rdropWhile_append, hstop]
  split
  · rename_i hall
    rw [List.rdropWhile_eq_nil_iff.mpr (List.all_eq_true.mp hall)]
  · exact (List.append_cons ..).symm

/-- What is left after dropping at the end does not end in what was dropped. -/
theorem getLast?_dropEndWhile {p : Char → Bool} {t : Text} {c : Char}
    (h : (dropEndWhile p t).getLast? = some c) : p c = false := by
  have hne : dropEndWhile p t ≠ [] := by
    intro hnil
    rw [hnil] at h
    cases h
  rw [List.getLast?_eq_some_getLast hne, Option.some.injEq] at h
  have hnot := List.rdropWhile_last_not p t hne
  rw [← h]
  exact Bool.eq_false_iff.mpr hnot

theorem dropEndWhile_of_getLast? {p : Char → Bool} {t : Text}
    (h : ∀ c, t.getLast? = some c → p c = false) : dropEndWhile p t = t := by
  refine List.rdropWhile_eq_self_iff.mpr fun hne => ?_
  rw [h _ (List.getLast?_eq_some_getLast hne)]
  exact Bool.false_ne_true

theorem trim_cons_of_blank {c : Char} (h : isBlank c = true) (t : Text) : trim (c :: t) = trim t := by
  rw [trim, trimStart, List.dropWhile_cons_of_pos h]
  rfl

theorem trimEnd_append_blank (t : Text) {w : Text} (h : allBlank w = true) :
    trimEnd (t ++ w) = trimEnd t := by
  have hw : ∀ c ∈ w.reverse, isBlank c = true := fun c hc =>
    List.all_eq_true.mp h c (List.mem_reverse.mp hc)
  rw [trimEnd, dropEndWhile, List.reverse_append, List.dropWhile_append_of_pos hw]
  rfl

theorem trim_append_blank (t : Text) {w : Text} (h : allBlank w = true) : trim (t ++ w) = trim t := by
  rw [trim, trim, trimStart, List.dropWhile_append]
  split
  · rename_i hempty
    rw [List.isEmpty_iff] at hempty
    have hw : w.dropWhile isBlank = [] := (dropWhile_eq_nil_iff isBlank w).mpr h
    rw [trimStart, hempty, hw]
  · exact trimEnd_append_blank _ h

/-- Trimming stops at a character that is no white space. -/
theorem trim_append_cons {c : Char} (hc : isBlank c = false) (s t : Text) :
    trim (s ++ c :: t) = trimStart s ++ c :: trimEnd t := by
  have hstart : trimStart (s ++ c :: t) = trimStart s ++ c :: t := by
    unfold trimStart
    induction s with
    | nil => exact List.dropWhile_cons_of_neg (by simp [hc])
    | cons d s ih =>
      rw [List.cons_append, List.dropWhile_cons, List.dropWhile_cons]
      split
      · exact ih
      · rfl
  rw [trim, hstart]
  exact rdropWhile_append_cons hc _ _

theorem infix_trim (t : Text) : trim t <:+: t :=
  (List.rdropWhile_prefix isBlank (trimStart t)).isInfix.trans (List.dropWhile_suffix isBlank).isInfix

theorem trim_trim (t : Text) : trim (trim t) = trim t := by
  have hstart : trimStart (trim t) = trim t :=
    dropWhile_eq_self_of_isPrefix (List.rdropWhile_prefix isBlank (trimStart t))
      (List.dropWhile_idempotent isBlank t)
  rw [trim, hstart, trim, trimEnd, trimEnd]
  exact List.rdropWhile_idempotent isBlank _

end Hypermark.Text
