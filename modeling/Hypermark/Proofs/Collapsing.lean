import Hypermark.Proofs.InlineMarkup
import Hypermark.Proofs.Trim

/-!
# Collapsing piece by piece

What collapsing makes of two lists of atoms is what it makes of the first, and of the second after
the gap that the first one leaves open.  So a buffer that has been collapsed comes through a second
time as it is, also as a part of a larger one.

* `Text.collapseSpaces_append`: white space at the seam of two texts becomes one space.
* `settle_append`: pieces and gaps of two lists of atoms.
* `collapse_append`: two buffers in a row, with a seam of white space between them.
* `closed_collapsed`: a collapsed buffer is a part that stays as it is.
-/

namespace Hypermark

/-! ## Texts -/

namespace Text

/-- The text starts with white space of ASCII. -/
def opensSpaced (t : Text) : Bool := t.head?.any isSpace

/-- The text ends in white space of ASCII. -/
def endsSpaced (t : Text) : Bool := t.getLast?.any isSpace

/-- The text without the white space of ASCII at its two ends. -/
def trimSpaces (t : Text) : Text := dropEndWhile isSpace (t.dropWhile isSpace)

/-- The collapsed text without white space at its start. -/
def flushLeft (t : Text) : Text := (collapseSpaces t).dropWhile isSpace

theorem exists_runs_cons (c : Char) (t : Text) : ∃ run rest, runs (c :: t) = (c :: run) :: rest := by
  rw [runs]
  split
  · split
    · exact ⟨_, _, rfl⟩
    · exact ⟨[], _, rfl⟩
  · exact ⟨[], _, rfl⟩

theorem collapseSpaces_cons_of_not {c : Char} (hc : isSpace c = false) (t : Text) :
    collapseSpaces (c :: t) = c :: collapseSpaces t := by
  cases t with
  | nil => simp [collapseSpaces, runs, hc]
  | cons d t =>
    obtain ⟨run, rest, hruns⟩ := exists_runs_cons d t
    rw [collapseSpaces, collapseSpaces, runs, hruns]
    by_cases hd : isSpace d = true
    · simp [hc, hd]
    · simp [hc, hd]

theorem collapseSpaces_cons_of_isSpace {c : Char} (hc : isSpace c = true) (t : Text) :
    collapseSpaces (c :: t) = ' ' :: (collapseSpaces t).dropWhile isSpace := by
  induction t generalizing c with
  | nil => simp [collapseSpaces, runs, hc]
  | cons d t ih =>
    obtain ⟨run, rest, hruns⟩ := exists_runs_cons d t
    by_cases hd : isSpace d = true
    · -- Both characters stand in one run, which `d` alone turns into the same space.
      obtain ⟨_, _, heq, hs⟩ := Inline.uniform_of_mem_runs (hruns ▸ List.mem_cons_self ..)
      obtain ⟨rfl, rfl⟩ := List.cons.inj heq
      have hrun : ∀ e ∈ run, isSpace e = true := fun e he => (hs e he).trans hd
      have hmerge : collapseSpaces (c :: d :: t) = collapseSpaces (d :: t) := by
        rw [collapseSpaces, collapseSpaces, runs, hruns]
        simp only [hc, hd, if_true, List.flatMap_cons, List.all_cons, Bool.true_and,
          List.all_eq_true.mpr hrun]
      rw [hmerge, ih hd, List.dropWhile_cons_of_pos rfl, List.dropWhile_idempotent]
    · have hd' := Bool.eq_false_iff.mpr hd
      have hsplit : collapseSpaces (c :: d :: t) = ' ' :: collapseSpaces (d :: t) := by
        rw [collapseSpaces, collapseSpaces, runs, hruns]
        simp [hc, hd']
      rw [hsplit, collapseSpaces_cons_of_not hd', List.dropWhile_cons_of_neg hd]

theorem endsSpaced_cons {t : Text} (ht : t ≠ []) (c : Char) : endsSpaced (c :: t) = endsSpaced t := by
  obtain ⟨d, t, rfl⟩ := List.exists_cons_of_ne_nil ht
  rw [endsSpaced, endsSpaced, List.getLast?_cons_cons]

theorem endsSpaced_append {t : Text} (ht : t ≠ []) (s : Text) :
    endsSpaced (s ++ t) = endsSpaced t := by
  rw [endsSpaced, endsSpaced, List.getLast?_append_of_ne_nil s ht]

theorem opensSpaced_append {s : Text} (hs : s ≠ []) (t : Text) :
    opensSpaced (s ++ t) = opensSpaced s := by
  obtain ⟨c, s, rfl⟩ := List.exists_cons_of_ne_nil hs
  rfl

theorem flushLeft_eq_nil_iff (t : Text) : flushLeft t = [] ↔ ∀ c ∈ t, isSpace c = true := by
  unfold flushLeft
  induction t with
  | nil => simp [collapseSpaces, runs]
  | cons c t ih =>
    rw [List.forall_mem_cons]
    by_cases hc : isSpace c = true
    · rw [collapseSpaces_cons_of_isSpace hc, List.dropWhile_cons_of_pos rfl, List.dropWhile_idempotent, ih]
      simp [hc]
    · rw [collapseSpaces_cons_of_not (Bool.eq_false_iff.mpr hc), List.dropWhile_cons_of_neg hc]
      simp [hc]

/-- White space at the seam of two texts becomes one space. -/
theorem collapseSpaces_append (s t : Text) : collapseSpaces (s ++ t) =
    collapseSpaces s ++ if endsSpaced s then flushLeft t else collapseSpaces t := by
  unfold flushLeft
  induction s with
  | nil => rfl
  | cons c s ih =>
    by_cases hc : isSpace c = true
    · rw [List.cons_append, collapseSpaces_cons_of_isSpace hc, collapseSpaces_cons_of_isSpace hc]
      cases s with
      | nil => simp [endsSpaced, hc, collapseSpaces, runs]
      | cons d s =>
        rw [endsSpaced_cons (List.cons_ne_nil d s), ih, List.dropWhile_append, List.cons_append]
        split
        · rename_i hempty
          have hall := (flushLeft_eq_nil_iff (d :: s)).mp (List.isEmpty_iff.mp hempty)
          have hends : endsSpaced (d :: s) = true := by
            rw [endsSpaced, List.getLast?_eq_some_getLast (List.cons_ne_nil d s)]
            exact hall _ (List.getLast_mem _)
          rw [List.isEmpty_iff.mp hempty, hends, if_pos rfl, List.dropWhile_idempotent]
          rfl
        · rfl
    · have hc' := Bool.eq_false_iff.mpr hc
      rw [List.cons_append, collapseSpaces_cons_of_not hc', collapseSpaces_cons_of_not hc']
      cases s with
      | nil => simp [endsSpaced, hc', collapseSpaces, runs]
      | cons d s => rw [endsSpaced_cons (List.cons_ne_nil d s), ih, List.cons_append]

theorem collapseSpaces_of_spaces {w : Text} (hne : w ≠ []) (h : ∀ c ∈ w, isSpace c = true) :
    collapseSpaces w = [' '] := by
  obtain ⟨c, w, rfl⟩ := List.exists_cons_of_ne_nil hne
  rw [List.forall_mem_cons] at h
  rw [collapseSpaces_cons_of_isSpace h.1]
  exact congrArg (' ' :: ·) ((flushLeft_eq_nil_iff w).mpr h.2)

theorem collapseSpaces_of_no_space {t : Text} (h : ∀ c ∈ t, isSpace c = false) :
    collapseSpaces t = t := by
  induction t with
  | nil => rfl
  | cons c t ih =>
    rw [List.forall_mem_cons] at h
    rw [collapseSpaces_cons_of_not h.1, ih h.2]

theorem endsSpaced_of_spaces {w : Text} (hne : w ≠ []) (h : ∀ c ∈ w, isSpace c = true) :
    endsSpaced w = true := by
  rw [endsSpaced, List.getLast?_eq_some_getLast hne]
  exact h _ (List.getLast_mem hne)

theorem flushLeft_of_solid {t : Text} (h : Inline.Solid t) : flushLeft t = collapseSpaces t := by
  obtain ⟨c, s, rfl, hc⟩ := h.starts
  rw [flushLeft, collapseSpaces_cons_of_not hc, List.dropWhile_cons_of_neg (by simp [hc])]

theorem endsSpaced_of_solid {t : Text} (h : Inline.Solid t) : endsSpaced t = false := by
  obtain ⟨s, c, rfl, hc⟩ := h.ends
  rw [endsSpaced, List.getLast?_concat]
  exact hc

/-- Text without white space at its edges follows as it is. -/
theorem flushLeft_append_solid (s : Text) {t : Text} (h : Inline.Solid t) :
    flushLeft (s ++ t) = flushLeft s ++ collapseSpaces t := by
  have hseam : (if endsSpaced s then flushLeft t else collapseSpaces t) = collapseSpaces t := by
    rw [flushLeft_of_solid h, ite_self]
  rw [flushLeft, collapseSpaces_append, hseam, List.dropWhile_append]
  split
  · rename_i hempty
    rw [flushLeft, List.isEmpty_iff.mp hempty, List.nil_append]
    exact flushLeft_of_solid h
  · rfl

/-- White space follows as one space. -/
theorem flushLeft_append_spaces {s w : Text} (hs : flushLeft s ≠ []) (hne : w ≠ [])
    (h : ∀ c ∈ w, isSpace c = true) :
    flushLeft (s ++ w) = flushLeft s ++ if endsSpaced s then [] else [' '] := by
  rw [flushLeft, collapseSpaces_append, (flushLeft_eq_nil_iff w).mpr h,
    collapseSpaces_of_spaces hne h, List.dropWhile_append, if_neg]
  · rfl
  · rw [List.isEmpty_iff]
    exact hs

/-- White space at the start is dropped. -/
theorem flushLeft_spaces_append {w : Text} (h : ∀ c ∈ w, isSpace c = true) (t : Text) :
    flushLeft (w ++ t) = flushLeft t := by
  induction w with
  | nil => rfl
  | cons c w ih =>
    rw [List.forall_mem_cons] at h
    rw [List.cons_append, flushLeft, collapseSpaces_cons_of_isSpace h.1, List.dropWhile_cons_of_pos rfl,
      List.dropWhile_idempotent]
    exact ih h.2

/-- A text is white space, or has some at each end of what collapses in between. -/
theorem exists_solid_middle (t : Text) : (∀ c ∈ t, isSpace c = true) ∨
    ∃ l m r, t = l ++ m ++ r ∧ (∀ c ∈ l, isSpace c = true) ∧ Inline.Solid m ∧
      ∀ c ∈ r, isSpace c = true := by
  cases hrest : t.dropWhile isSpace with
  | nil => exact .inl (List.all_eq_true.mp ((dropWhile_eq_nil_iff isSpace t).mp hrest))
  | cons c s =>
    have hc : isSpace c = false := by
      have hnot := List.head?_dropWhile_not isSpace t
      rwa [hrest] at hnot
    refine .inr ⟨t.takeWhile isSpace, (c :: s).rdropWhile isSpace, (c :: s).rtakeWhile isSpace,
      ?_, fun d hd => List.mem_takeWhile_imp hd, ⟨?_, ?_⟩, fun d hd => List.mem_rtakeWhile_imp hd⟩
    · rw [List.append_assoc, List.rdropWhile_append_rtakeWhile, ← hrest,
        List.takeWhile_append_dropWhile]
    · exact ⟨c, s.rdropWhile isSpace, rdropWhile_append_cons hc [] s, hc⟩
    · have hne : (c :: s).rdropWhile isSpace ≠ [] := by
        rw [show c :: s = [] ++ c :: s from rfl, rdropWhile_append_cons hc]
        exact List.cons_ne_nil _ _
      exact ⟨_, _, (List.dropLast_concat_getLast hne).symm,
        Bool.eq_false_iff.mpr (List.rdropWhile_last_not isSpace _ hne)⟩

section Middle

variable {l m r : Text} (hl : ∀ c ∈ l, isSpace c = true) (hm : Inline.Solid m)
  (hr : ∀ c ∈ r, isSpace c = true)

include hl hm in
theorem opensSpaced_middle : opensSpaced (l ++ m ++ r) = !l.isEmpty := by
  rw [List.append_assoc]
  cases l with
  | nil =>
    obtain ⟨c, s, rfl, hc⟩ := hm.starts
    exact hc
  | cons c l => exact hl c (List.mem_cons_self ..)

include hm hr in
theorem endsSpaced_middle : endsSpaced (l ++ m ++ r) = !r.isEmpty := by
  cases r with
  | nil => rw [List.append_nil, endsSpaced_append hm.ne_nil, endsSpaced_of_solid hm]; rfl
  | cons c r =>
    have hne := List.cons_ne_nil c r
    rw [endsSpaced_append hne, endsSpaced_of_spaces hne hr]
    rfl

include hl hm hr in
theorem flushLeft_middle :
    flushLeft (l ++ m ++ r) = collapseSpaces m ++ if r.isEmpty then [] else [' '] := by
  rw [List.append_assoc, flushLeft_spaces_append hl]
  cases r with
  | nil => rw [List.append_nil, flushLeft_of_solid hm]; exact (List.append_nil _).symm
  | cons c r =>
    have hne : flushLeft m ≠ [] := by
      rw [ne_eq, flushLeft_eq_nil_iff]
      obtain ⟨d, s, rfl, hd⟩ := hm.starts
      exact fun h => absurd (h d (List.mem_cons_self ..)) (by simp [hd])
    rw [flushLeft_append_spaces hne (List.cons_ne_nil c r) hr, endsSpaced_of_solid hm,
      flushLeft_of_solid hm]
    rfl

end Middle

end Text

/-! ## Buffers -/

namespace Buffer

open Text Inline

/-- The gap that some atoms leave open, where `gap` came before them. -/
def gapFrom (gap : Gap) : List Atom → Gap
  | [] => gap
  | .piece _ :: rest => gapFrom Gap.none rest
  | .space :: rest => gapFrom { gap with space := true } rest
  | .breaks n :: rest => gapFrom { gap with breaks := gap.breaks + n } rest

/-- What a following piece is set apart by; nothing before the first piece. -/
def openGap (as : List Atom) : Buffer :=
  if settle as = [] then [] else (gapFrom Gap.none as).fragments

theorem gapFrom_append (gap : Gap) (as bs : List Atom) :
    gapFrom gap (as ++ bs) = gapFrom (gapFrom gap as) bs := by
  induction as generalizing gap with
  | nil => rfl
  | cons a as ih =>
    cases a with
    | piece f => exact ih _
    | space => exact ih _
    | breaks n => exact ih _

theorem settleAfter_append (gap : Gap) (as bs : List Atom) :
    settleAfter gap (as ++ bs) = settleAfter gap as ++ settleAfter (gapFrom gap as) bs := by
  induction as generalizing gap with
  | nil => rfl
  | cons a as ih =>
    cases a with
    | piece f =>
      rw [List.cons_append, settleAfter, settleAfter, ih, gapFrom, List.append_assoc,
        List.cons_append]
    | space => exact ih _
    | breaks n => exact ih _

/-- Once there is a piece, the gap before it does not matter for the gap at the end. -/
theorem gapFrom_of_settle_ne_nil {as : List Atom} (h : settle as ≠ []) (gap : Gap) :
    gapFrom gap as = gapFrom Gap.none as := by
  induction as generalizing gap with
  | nil => exact absurd rfl h
  | cons a as ih =>
    cases a with
    | piece f => rfl
    | space => exact (ih h _).trans (ih h _).symm
    | breaks n => exact (ih h _).trans (ih h _).symm

/-- Pieces and gaps of two lists of atoms. -/
theorem settle_append (as bs : List Atom) : settle (as ++ bs) =
    if settle as = [] then settle bs else settle as ++ settleAfter (gapFrom Gap.none as) bs := by
  have hgap : ∀ (as : List Atom) (gap : Gap),
      (if settle as = [] then settle bs else settle as ++ settleAfter (gapFrom Gap.none as) bs) =
        if settle as = [] then settle bs else settle as ++ settleAfter (gapFrom gap as) bs := by
    intro as gap
    split
    · rfl
    · rename_i h
      rw [gapFrom_of_settle_ne_nil h gap]
  induction as with
  | nil => rfl
  | cons a as ih =>
    cases a with
    | piece f =>
      rw [List.cons_append, settle, settle, settleAfter_append, if_neg (List.cons_ne_nil _ _), gapFrom,
        List.cons_append]
    | space => exact ih.trans (hgap as _)
    | breaks n => exact ih.trans (hgap as _)

/-- A gap at the end is not shown. -/
theorem settle_append_of_nil (as : List Atom) {bs : List Atom} (h : settle bs = []) :
    settle (as ++ bs) = settle as := by
  rw [settle_append, h, (settleAfter_eq_nil_iff _ bs).mpr h, List.append_nil]
  split
  · rename_i has
    exact has.symm
  · rfl

/-! ### Seams -/

/-- What stands between the last piece of one buffer and the first of the next. -/
def seam (a b : Buffer) : Text :=
  if collapsed a = [] ∨ collapsed b = [] then []
  else raw (gapBefore (gapFrom Gap.none (atoms id a)) (atoms id b)).fragments

/-- Two buffers in a row come out one after the other, with a seam between them. -/
theorem collapse_append (a b : Buffer) :
    collapse (a ++ b) = collapse a ++ seam a b ++ collapse b := by
  have hsettle : collapsed (a ++ b) = if collapsed a = [] then collapsed b
      else collapsed a ++ settleAfter (gapFrom Gap.none (atoms id a)) (atoms id b) := by
    rw [collapsed, collapsedWith, atoms_append]
    exact settle_append _ _
  show raw (collapsed (a ++ b)) = raw (collapsed a) ++ seam a b ++ raw (collapsed b)
  rw [hsettle, seam]
  by_cases ha : collapsed a = []
  · rw [if_pos ha, if_pos (.inl ha), ha]
    rfl
  by_cases hb : collapsed b = []
  · rw [if_neg ha, if_pos (.inr hb), (settleAfter_eq_nil_iff _ _).mpr hb, hb, raw_append,
      List.append_nil]
  · rw [if_neg ha, if_neg (not_or.mpr ⟨ha, hb⟩), settleAfter_of_ne_nil hb, raw_append, raw_append,
      ← List.append_assoc]
    rfl

theorem isSpace_of_mem_seam {a b : Buffer} : ∀ c ∈ seam a b, isSpace c = true := by
  rw [seam]
  split
  · exact fun c hc => absurd hc List.not_mem_nil
  rw [Gap.fragments]
  split
  · intro c hc
    rw [raw, List.flatMap_singleton] at hc
    rw [List.eq_of_mem_replicate hc]
    rfl
  split
  · exact (List.forall_mem_singleton ..).mpr rfl
  · exact fun c hc => absurd hc List.not_mem_nil

/-! ### Parts that stay -/

/-- A buffer that starts and ends with a piece and has nothing left to collapse. -/
structure Closed (c : Buffer) : Prop where
  starts : ∃ f as, atoms id c = .piece f :: as
  ends : gapFrom Gap.none (atoms id c) = Gap.none
  settled : collapsed c = c

namespace Closed

variable {a b : Buffer}

theorem ne_nil (h : Closed b) : b ≠ [] := by
  rintro rfl
  obtain ⟨f, as, has⟩ := h.starts
  cases has

theorem gapFrom_eq (h : Closed b) (gap : Gap) : gapFrom gap (atoms id b) = Gap.none := by
  have hne : settle (atoms id b) ≠ [] := by
    rw [← collapsedWith, ← collapsed, h.settled]
    exact h.ne_nil
  rw [gapFrom_of_settle_ne_nil hne, h.ends]

/-- A closed part is set apart by the gap before it. -/
theorem settleAfter_eq (h : Closed b) (gap : Gap) :
    settleAfter gap (atoms id b) = gap.fragments ++ b := by
  obtain ⟨f, as, has⟩ := h.starts
  have hsettled := h.settled
  rw [collapsed, collapsedWith, has, settle] at hsettled
  rw [has, settleAfter, hsettled]

/-- Adding a closed part leaves what is there as it is. -/
theorem settle_append_atoms (h : Closed b) (as : List Atom) :
    settle (as ++ atoms id b) = settle as ++ openGap as ++ b := by
  rw [settle_append, openGap]
  split
  · rename_i hnil
    rw [hnil]
    exact h.settled
  · rw [h.settleAfter_eq, List.append_assoc]

/-- Two closed parts with a gap between them. -/
theorem append_gap (ha : Closed a) (hb : Closed b) (gap : Gap) :
    Closed (a ++ gap.fragments ++ b) := by
  have hatoms : atoms id (a ++ gap.fragments ++ b) =
      atoms id a ++ atoms id gap.fragments ++ atoms id b := by rw [atoms_append, atoms_append]
  have hgap : settle (atoms id a ++ atoms id gap.fragments) = a ∧
      (gapFrom Gap.none (atoms id a ++ atoms id gap.fragments)).fragments = gap.fragments := by
    have hsettled := ha.settled
    have hne := ha.ne_nil
    rw [collapsed, collapsedWith] at hsettled
    rw [settle_append, hsettled, if_neg hne, ha.ends, gapFrom_append, ha.ends]
    rw [Gap.fragments]
    split
    · rename_i hbreaks
      simp [atoms, atomsOf, settleAfter, gapFrom, Gap.none, Gap.fragments, hbreaks]
    split
    · refine ⟨?_, rfl⟩
      show a ++ [] = a
      rw [List.append_nil]
    · exact ⟨List.append_nil a, rfl⟩
  refine ⟨?_, ?_, ?_⟩
  · obtain ⟨f, as, has⟩ := ha.starts
    exact ⟨f, as ++ atoms id gap.fragments ++ atoms id b, by rw [hatoms, has]; simp⟩
  · rw [hatoms, gapFrom_append, hb.gapFrom_eq]
  · rw [collapsed, collapsedWith, hatoms, hb.settle_append_atoms, openGap, hgap.1,
      if_neg ha.ne_nil, hgap.2]

theorem append (ha : Closed a) (hb : Closed b) : Closed (a ++ b) := by
  have h := ha.append_gap hb Gap.none
  rwa [Gap.fragments, if_neg (by decide), if_neg (by decide), List.append_nil] at h

end Closed

theorem closed_markup (m : Text) : Closed [.markup m] := ⟨⟨.markup m, [], rfl⟩, rfl, rfl⟩

/-- A word is a piece of its own. -/
theorem atomsOf_text {w : Text} (hne : w ≠ []) (h : ∀ c ∈ w, isSpace c = false) :
    atomsOf id (.text w) = [.piece (.text w)] := by
  have hruns : runs w = [w] := by
    induction w with
    | nil => exact absurd rfl hne
    | cons c w ih =>
      rw [List.forall_mem_cons] at h
      cases w with
      | nil => rfl
      | cons d w =>
        have hd := (List.forall_mem_cons.mp h.2).1
        rw [runs, ih (List.cons_ne_nil d w) h.2]
        exact if_pos (h.1.trans hd.symm)
  obtain ⟨c, w, rfl⟩ := List.exists_cons_of_ne_nil hne
  have hc := (List.forall_mem_cons.mp h).1
  rw [atomsOf, hruns, List.map_singleton, List.all_cons, hc, Bool.false_and]
  rfl

theorem closed_word {w : Text} (hne : w ≠ []) (h : ∀ c ∈ w, isSpace c = false) :
    Closed [.text w] := by
  have hatoms : atoms id [.text w] = [.piece (.text w)] := by
    rw [atoms, List.flatMap_singleton, atomsOf_text hne h]
  refine ⟨⟨.text w, [], hatoms⟩, ?_, ?_⟩
  · rw [hatoms]
    rfl
  · rw [collapsed, collapsedWith, hatoms]
    rfl

theorem closed_of_piece {b : Buffer} {f : Fragment} (h : Atom.piece f ∈ atoms id b) :
    Closed [f] := by
  rcases of_piece_mem_atoms h with ⟨m, rfl, _⟩ | ⟨_, run, rfl, _, hmem, hrun⟩
  · exact closed_markup m
  · obtain ⟨c, s, rfl, _⟩ := uniform_of_mem_runs hmem
    exact closed_word (List.cons_ne_nil c s) (no_space_of_mem_runs hmem hrun)

/-- What collapsing leaves is closed, so collapsing it again changes nothing. -/
theorem closed_collapsed {b : Buffer} (h : collapsed b ≠ []) : Closed (collapsed b) := by
  suffices hsettle : ∀ as : List Atom, (∀ f, .piece f ∈ as → Closed [f]) →
      settle as = [] ∨ Closed (settle as) from
    (hsettle (atoms id b) fun _ hf => closed_of_piece hf).resolve_left h
  intro as
  induction as using List.reverseRecOn with
  | nil => exact fun _ => .inl rfl
  | append_singleton as a ih =>
    intro hpieces
    have hinit := ih fun f hf => hpieces f (List.mem_append_left _ hf)
    cases a with
    | piece f =>
      have hf : Closed [f] := hpieces f (List.mem_append_right _ (List.mem_singleton_self _))
      rw [settle_append]
      rcases hinit with hnil | hclosed
      · rw [if_pos hnil]
        exact .inr hf
      · rw [if_neg hclosed.ne_nil, settleAfter, settleAfter, ← List.append_assoc]
        exact .inr (hclosed.append_gap hf _)
    | space => rwa [settle_append_of_nil as rfl]
    | breaks n => rwa [settle_append_of_nil as rfl]

end Buffer

end Hypermark
