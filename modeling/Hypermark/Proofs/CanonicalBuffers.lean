import Hypermark.Proofs.Collapsing
import Hypermark.Proofs.InlineTally

/-!
# Canonical buffers

A buffer is a row of pieces with gaps between them: a piece is markup or literal text without white
space, a gap is all the white space and hard breaks up to the next piece.  Collapsing keeps the
pieces and puts one separator for each gap between two of them, which it finds again as the gap when
it collapses the result.  Where literal text is cut into fragments only shows in where the pieces
are cut, so it does not show in the text that comes out.

* `IsRuns`, `IsCut`: literal text cut exactly where white space begins or ends.
* `Stretch`, `joined`: a piece with the gap behind it, and what a row of them comes to.
* `exists_stretches`: a buffer as such a row.
* `ShownAlike`: atoms that come to the same text wherever they stand.
* `collapsed_canonical`: what collapsing makes of a buffer.
-/

namespace Hypermark

open Text

namespace Text

/-- The pieces are what is left of the text when it is cut exactly where white space begins or ends:
they make it up, each is white space or free of it, and two neighbours are never of one kind. -/
structure IsRuns (t : Text) (pieces : List Text) : Prop where
  flatten_eq : pieces.flatten = t
  ne_nil : ∀ p ∈ pieces, p ≠ []
  uniform : ∀ p ∈ pieces, (∀ c ∈ p, isSpace c = true) ∨ ∀ c ∈ p, isSpace c = false
  maximal : pieces.IsChain fun p q => p.all isSpace ≠ q.all isSpace

theorem runs_cons_cons {c d : Char} {t run : Text} {rest : List Text}
    (h : runs (d :: t) = (d :: run) :: rest) : runs (c :: d :: t) =
      if isSpace c = isSpace d then (c :: d :: run) :: rest else [c] :: (d :: run) :: rest := by
  rw [runs, h]

theorem isChain_runs (t : Text) : (runs t).IsChain fun p q => p.all isSpace ≠ q.all isSpace := by
  induction t with
  | nil => exact .nil
  | cons c t ih =>
    cases t with
    | nil => exact .singleton _
    | cons d t =>
      obtain ⟨run, rest, hruns⟩ := exists_runs_cons d t
      obtain ⟨_, _, heq, hrun⟩ := Inline.uniform_of_mem_runs (hruns ▸ List.mem_cons_self ..)
      obtain ⟨rfl, rfl⟩ := List.cons.inj heq
      have hkind : (d :: run).all isSpace = isSpace d := by
        cases hd : isSpace d with
        | true => exact List.all_eq_true.mpr (List.forall_mem_cons.mpr ⟨hd, fun e he =>
            (hrun e he).trans hd⟩)
        | false => rw [List.all_cons, hd, Bool.false_and]
      rw [hruns] at ih
      rw [runs_cons_cons hruns]
      by_cases hsame : isSpace c = isSpace d
      · rw [if_pos hsame]
        have hall : (c :: d :: run).all isSpace = (d :: run).all isSpace := by
          rw [List.all_cons, hkind, hsame, Bool.and_self]
        cases ih with
        | singleton => exact .singleton _
        | cons_cons hne hrest => exact .cons_cons (hall ▸ hne) hrest
      · rw [if_neg hsame]
        refine .cons_cons ?_ ih
        rw [hkind, List.all_cons, List.all_nil, Bool.and_true]
        exact hsame

theorem isRuns_runs (t : Text) : IsRuns t (runs t) where
  flatten_eq := flatten_runs t
  ne_nil p hp := by
    obtain ⟨c, s, rfl, _⟩ := Inline.uniform_of_mem_runs hp
    exact List.cons_ne_nil c s
  uniform p hp := by
    obtain ⟨c, s, rfl, hs⟩ := Inline.uniform_of_mem_runs hp
    cases hc : isSpace c with
    | true => exact .inl (List.forall_mem_cons.mpr ⟨hc, fun d hd => (hs d hd).trans hc⟩)
    | false => exact .inr (List.forall_mem_cons.mpr ⟨hc, fun d hd => (hs d hd).trans hc⟩)
  maximal := isChain_runs t

end Text

namespace Fragment

/-- A piece of content: markup, or literal text without white space. -/
def isContent : Fragment → Bool
  | text t => !t.isEmpty && t.all (!isSpace ·)
  | markup _ => true
  | hardBreak _ => false

/-- A part of a gap: white space, or a hard break. -/
def isGap : Fragment → Bool
  | text t => !t.isEmpty && t.all isSpace
  | markup _ => false
  | hardBreak _ => true

end Fragment

namespace Buffer

/-- The fragments with literal text cut into its white space and the pieces between. -/
def cut (b : Buffer) : Buffer :=
  b.flatMap fun
    | .text t => (runs t).map .text
    | f => [f]

/-- The second buffer is the first one with its literal text cut exactly where white space begins or
ends. -/
inductive IsCut : Buffer → Buffer → Prop
  | nil : IsCut [] []
  | text {t : Text} {pieces : List Text} {b c : Buffer} (hruns : IsRuns t pieces)
      (hrest : IsCut b c) : IsCut (.text t :: b) (pieces.map .text ++ c)
  | other {f : Fragment} {b c : Buffer} (hf : f.isText = false) (hrest : IsCut b c) :
      IsCut (f :: b) (f :: c)

theorem isCut_cut (b : Buffer) : IsCut b (cut b) := by
  induction b with
  | nil => exact .nil
  | cons f b ih =>
    cases f with
    | text t => exact .text (isRuns_runs t) ih
    | markup t => exact .other rfl ih
    | hardBreak t => exact .other rfl ih

/-- Cutting loses no character. -/
theorem IsCut.raw_eq {b c : Buffer} (h : IsCut b c) : raw c = raw b := by
  induction h with
  | nil => rfl
  | @text t pieces b c hruns hrest ih =>
    have hpieces : raw (pieces.map .text) = t := by
      rw [raw, List.flatMap_map, ← hruns.flatten_eq]
      exact List.flatMap_id'
    rw [raw_append, hpieces, ih]
    rfl
  | @other f b c hf hrest ih => exact congrArg (f.content ++ ·) ih

/-- What stands for a gap: as many line feeds as it has characters of hard breaks, or else one space
if it has white space. -/
def separator (gap : Buffer) : Buffer :=
  if 0 < breakCount gap then [.hardBreak (List.replicate (breakCount gap) '\n')]
  else if gap.any Fragment.isText then [.text [' ']]
  else []

/-- A piece of content and the gap behind it. -/
structure Stretch where
  piece : Fragment
  gap : Buffer
  isContent_piece : piece.isContent = true
  isGap_gap : ∀ f ∈ gap, f.isGap = true

def Stretch.source (s : Stretch) : Buffer := s.piece :: s.gap

/-- The pieces in order, a separator between each two for the gap there. -/
def joined : List Stretch → Buffer
  | [] => []
  | [s] => [s.piece]
  | s :: next :: rest => s.piece :: (separator s.gap ++ joined (next :: rest))

/-- Cutting leaves nothing but pieces and parts of gaps. -/
theorem isContent_or_isGap_of_mem_cut {b : Buffer} {f : Fragment} (h : f ∈ cut b) :
    f.isContent = true ∨ f.isGap = true := by
  obtain ⟨g, _, hg⟩ := List.mem_flatMap.mp h
  cases g with
  | markup t =>
    cases List.mem_singleton.mp hg
    exact .inl rfl
  | hardBreak t =>
    cases List.mem_singleton.mp hg
    exact .inr rfl
  | text t =>
    obtain ⟨run, hrun, rfl⟩ := List.mem_map.mp hg
    obtain ⟨c, s, rfl, _⟩ := Inline.uniform_of_mem_runs hrun
    cases hspace : (c :: s).all isSpace with
    | true => exact .inr hspace
    | false =>
      have hnone := Inline.no_space_of_mem_runs hrun hspace
      exact .inl (List.all_eq_true.mpr fun d hd => by simp [hnone d hd])

/-- A buffer of pieces and parts of gaps is a gap and a row of pieces, each with the gap behind it. -/
theorem exists_stretches {b : Buffer} (h : ∀ f ∈ b, f.isContent = true ∨ f.isGap = true) :
    ∃ lead : Buffer, ∃ row : List Stretch,
      (∀ f ∈ lead, f.isGap = true) ∧ b = lead ++ row.flatMap Stretch.source := by
  induction b with
  | nil => exact ⟨[], [], List.forall_mem_nil _, rfl⟩
  | cons f b ih =>
    rw [List.forall_mem_cons] at h
    obtain ⟨lead, row, hlead, rfl⟩ := ih h.2
    rcases h.1 with hf | hf
    · exact ⟨[], ⟨f, lead, hf, hlead⟩ :: row, List.forall_mem_nil _, rfl⟩
    · exact ⟨f :: lead, row, List.forall_mem_cons.mpr ⟨hf, hlead⟩, rfl⟩

/-! ## Pieces and gaps as atoms -/

/-- What collapsing sees in one run of literal text. -/
def runAtom (escape : Text → Text) (run : Text) : Atom :=
  if run.all isSpace then .space else .piece (.text (escape run))

theorem runAtom_of_spaces {run : Text} (h : ∀ c ∈ run, isSpace c = true) (escape : Text → Text) :
    runAtom escape run = .space := if_pos (List.all_eq_true.mpr h)

theorem runAtom_cons_of_not {c : Char} (h : isSpace c = false) (escape : Text → Text) (s : Text) :
    runAtom escape (c :: s) = .piece (.text (escape (c :: s))) := by
  rw [runAtom, List.all_cons, h, Bool.false_and]
  rfl

/-- What collapsing sees in a fragment that is a piece or belongs to a gap. -/
def atomOf : Fragment → Atom
  | .text t => runAtom id t
  | .markup t => .piece (.markup t)
  | .hardBreak t => .breaks t.length

theorem atoms_id (b : Buffer) : atoms id b = (cut b).map atomOf := by
  rw [atoms, cut, List.map_flatMap]
  refine congrArg (b.flatMap ·) (funext fun f => ?_)
  cases f with
  | text t =>
    show (runs t).map _ = ((runs t).map Fragment.text).map atomOf
    rw [List.map_map]
    rfl
  | markup t => rfl
  | hardBreak t => rfl

theorem atomOf_of_isContent {f : Fragment} (h : f.isContent = true) : atomOf f = .piece f := by
  cases f with
  | markup t => rfl
  | hardBreak t => cases h
  | text t =>
    obtain ⟨hne, hall⟩ := Bool.and_eq_true_iff.mp h
    cases t with
    | nil => cases hne
    | cons c t =>
      obtain ⟨hc, _⟩ := Bool.and_eq_true_iff.mp hall
      exact runAtom_cons_of_not ((Bool.not_eq_true' _).mp hc) id t

/-- A part of a gap is white space or breaks the line. -/
theorem atomOf_of_isGap {f : Fragment} (h : f.isGap = true) :
    atomOf f = .space ∧ f.isText = true ∧ f.breakCount = 0 ∨
      atomOf f = .breaks f.breakCount ∧ f.isText = false := by
  cases f with
  | markup t => cases h
  | hardBreak t => exact .inr ⟨rfl, rfl⟩
  | text t =>
    have hspaces := List.all_eq_true.mp (Bool.and_eq_true_iff.mp h).2
    exact .inl ⟨runAtom_of_spaces hspaces id, rfl, rfl⟩

section Gaps

variable {gap : Buffer} (hgap : ∀ f ∈ gap, f.isGap = true)

include hgap

theorem settle_gap (as : List Atom) : settle (gap.map atomOf ++ as) = settle as := by
  induction gap with
  | nil => rfl
  | cons f gap ih =>
    rw [List.forall_mem_cons] at hgap
    rw [List.map_cons, List.cons_append, ← ih hgap.2]
    rcases atomOf_of_isGap hgap.1 with ⟨hatom, _⟩ | ⟨hatom, _⟩ <;> rw [hatom] <;> rfl

theorem gapBefore_gap (g : Gap) (as : List Atom) :
    gapBefore g (gap.map atomOf ++ as) =
      gapBefore ⟨g.space || gap.any Fragment.isText, g.breaks + breakCount gap⟩ as := by
  induction gap generalizing g with
  | nil => simp [breakCount]
  | cons f gap ih =>
    rw [List.forall_mem_cons] at hgap
    have hcount : breakCount (f :: gap) = f.breakCount + breakCount gap := List.sum_cons
    rw [List.map_cons, List.cons_append, List.any_cons, hcount]
    rcases atomOf_of_isGap hgap.1 with ⟨hatom, htext, hbreaks⟩ | ⟨hatom, htext⟩
    · rw [hatom, gapBefore, ih hgap.2, htext, hbreaks]
      simp
    · rw [hatom, gapBefore, ih hgap.2, htext, Nat.add_assoc, Bool.false_or]

end Gaps

theorem joined_ne_nil (s : Stretch) (row : List Stretch) : joined (s :: row) ≠ [] := by
  cases row <;> exact List.cons_ne_nil _ _

/-- A row of pieces and gaps is joined. -/
theorem settle_stretches (row : List Stretch) :
    settle ((row.flatMap Stretch.source).map atomOf) = joined row := by
  induction row with
  | nil => rfl
  | cons s row ih =>
    have hrest := settle_gap s.isGap_gap ((row.flatMap Stretch.source).map atomOf)
    rw [ih] at hrest
    rw [List.flatMap_cons, Stretch.source, List.cons_append, List.map_cons, List.map_append,
      atomOf_of_isContent s.isContent_piece, settle]
    cases row with
    | nil =>
      rw [(settleAfter_eq_nil_iff _ _).mpr hrest]
      rfl
    | cons next row =>
      obtain ⟨as, has⟩ : ∃ as, ((next :: row).flatMap Stretch.source).map atomOf =
          .piece next.piece :: as :=
        ⟨_, by rw [List.flatMap_cons, Stretch.source, List.cons_append, List.map_cons,
          atomOf_of_isContent next.isContent_piece]⟩
      rw [settleAfter_of_ne_nil (hrest ▸ joined_ne_nil next row), hrest,
        gapBefore_gap s.isGap_gap, has, gapBefore, Gap.none, Bool.false_or, Nat.zero_add]
      rfl

/-! ## Atoms that come to the same text -/

/-- Whatever stands before and behind them, the atoms come to the same text. -/
def ShownAlike (as bs : List Atom) : Prop :=
  ∀ rest, raw (settle (as ++ rest)) = raw (settle (bs ++ rest)) ∧
    ∀ gap, raw (settleAfter gap (as ++ rest)) = raw (settleAfter gap (bs ++ rest))

namespace ShownAlike

variable {as bs cs : List Atom}

theorem refl (as : List Atom) : ShownAlike as as := fun _ => ⟨rfl, fun _ => rfl⟩

theorem symm (h : ShownAlike as bs) : ShownAlike bs as := fun rest =>
  ⟨(h rest).1.symm, fun gap => ((h rest).2 gap).symm⟩

theorem trans (h : ShownAlike as bs) (h' : ShownAlike bs cs) : ShownAlike as cs := fun rest =>
  ⟨(h rest).1.trans (h' rest).1, fun gap => ((h rest).2 gap).trans ((h' rest).2 gap)⟩

theorem cons (a : Atom) (h : ShownAlike as bs) : ShownAlike (a :: as) (a :: bs) := by
  intro rest
  obtain ⟨hstart, hafter⟩ := h rest
  cases a with
  | piece f =>
    have hrest : raw (f :: settleAfter Gap.none (as ++ rest)) =
        raw (f :: settleAfter Gap.none (bs ++ rest)) :=
      congrArg (f.content ++ ·) (hafter Gap.none)
    refine ⟨hrest, fun gap => ?_⟩
    show raw (gap.fragments ++ f :: settleAfter Gap.none (as ++ rest)) =
      raw (gap.fragments ++ f :: settleAfter Gap.none (bs ++ rest))
    rw [raw_append, raw_append, hrest]
  | space => exact ⟨hstart, fun _ => hafter _⟩
  | breaks n => exact ⟨hstart, fun _ => hafter _⟩

theorem append_left (h : ShownAlike as bs) (before : List Atom) :
    ShownAlike (before ++ as) (before ++ bs) := by
  induction before with
  | nil => exact h
  | cons a before ih => exact ih.cons a

theorem append_right (h : ShownAlike as bs) (after : List Atom) :
    ShownAlike (as ++ after) (bs ++ after) := by
  intro rest
  rw [List.append_assoc, List.append_assoc]
  exact h (after ++ rest)

/-- White space next to white space makes no difference. -/
theorem spaces (as : List Atom) : ShownAlike (.space :: as) (.space :: .space :: as) := fun _ =>
  ⟨rfl, fun _ => rfl⟩

/-- Literal text in two pieces without a gap reads like one piece. -/
theorem pieces (s t : Text) (as : List Atom) : ShownAlike (.piece (.text (s ++ t)) :: as)
    (.piece (.text s) :: .piece (.text t) :: as) := by
  intro rest
  have hnone : Gap.none.fragments = [] := rfl
  have hpieces : raw (.text (s ++ t) :: settleAfter Gap.none (as ++ rest)) =
      raw (.text s :: (Gap.none.fragments ++ .text t :: settleAfter Gap.none (as ++ rest))) :=
    List.append_assoc ..
  refine ⟨hpieces, fun gap => ?_⟩
  show raw (gap.fragments ++ _) = raw (gap.fragments ++ _)
  rw [raw_append, raw_append]
  exact congrArg (raw gap.fragments ++ ·) hpieces

end ShownAlike

section Split

variable {escape : Text → Text} (hescape : ∀ s t, escape (s ++ t) = escape s ++ escape t)

include hescape

/-- The first character of literal text may stand in a fragment of its own. -/
theorem shownAlike_cons (c : Char) (t : Text) : ShownAlike (atomsOf escape (.text (c :: t)))
    (atomsOf escape (.text [c]) ++ atomsOf escape (.text t)) := by
  show ShownAlike ((runs (c :: t)).map (runAtom escape))
    (runAtom escape [c] :: (runs t).map (runAtom escape))
  cases t with
  | nil => exact .refl _
  | cons d t =>
    obtain ⟨run, rest, hruns⟩ := exists_runs_cons d t
    rw [runs_cons_cons hruns, hruns]
    by_cases hkind : isSpace c = isSpace d
    · rw [if_pos hkind, List.map_cons, List.map_cons]
      cases hd : isSpace d with
      | true =>
        -- one run of white space, which stays one when its first character is taken off
        have hc : isSpace c = true := hkind.trans hd
        obtain ⟨_, _, heq, hrun⟩ := Inline.uniform_of_mem_runs (hruns ▸ List.mem_cons_self ..)
        obtain ⟨rfl, rfl⟩ := List.cons.inj heq
        have hshort : ∀ e ∈ d :: run, isSpace e = true :=
          List.forall_mem_cons.mpr ⟨hd, fun e he => (hrun e he).trans hd⟩
        rw [runAtom_of_spaces (List.forall_mem_cons.mpr ⟨hc, hshort⟩), runAtom_of_spaces hshort,
          runAtom_of_spaces ((List.forall_mem_singleton ..).mpr hc)]
        exact .spaces _
      | false =>
        have hc : isSpace c = false := hkind.trans hd
        have hcut : escape (c :: d :: run) = escape [c] ++ escape (d :: run) :=
          hescape [c] (d :: run)
        rw [runAtom_cons_of_not hc, runAtom_cons_of_not hc, runAtom_cons_of_not hd, hcut]
        exact .pieces _ _ _
    · rw [if_neg hkind]
      exact .refl _

theorem shownAlike_append (s t : Text) : ShownAlike (atomsOf escape (.text (s ++ t)))
    (atomsOf escape (.text s) ++ atomsOf escape (.text t)) := by
  induction s with
  | nil => exact .refl _
  | cons c s ih =>
    have hwhole := (shownAlike_cons hescape c (s ++ t)).trans (ih.append_left _)
    rw [← List.append_assoc] at hwhole
    exact hwhole.trans ((shownAlike_cons hescape c s).symm.append_right _)

/-- Where literal text is cut into two fragments does not show. -/
theorem collapseWith_split (before after : Buffer) (s t : Text) :
    collapseWith escape (before ++ .text s :: .text t :: after) =
      collapseWith escape (before ++ .text (s ++ t) :: after) := by
  have hsplit := ((shownAlike_append hescape s t).append_left (atoms escape before)).symm
    (atoms escape after)
  have hparted : atoms escape (before ++ .text s :: .text t :: after) = atoms escape before ++
      (atomsOf escape (.text s) ++ atomsOf escape (.text t)) ++ atoms escape after := by
    simp [atoms]
  have hwhole : atoms escape (before ++ .text (s ++ t) :: after) = atoms escape before ++
      atomsOf escape (.text (s ++ t)) ++ atoms escape after := by
    simp [atoms]
  rw [collapseWith, collapseWith, collapsedWith, collapsedWith, hparted, hwhole]
  exact hsplit.1

end Split

theorem collapsed_collapsed (b : Buffer) : collapsed (collapsed b) = collapsed b := by
  by_cases h : collapsed b = []
  · rw [h]
    rfl
  · exact (closed_collapsed h).settled

/-- Literal text is cut exactly where white space begins or ends, and no character of the buffer is
lost by that.  Collapsing the buffer keeps its pieces in order, with one separator for the gap
between each two and nothing for the gaps at the ends.  Collapsing the result again changes nothing.
The text that comes out, escaped or not, is the same wherever literal text is cut into two
fragments. -/
theorem collapsed_canonical (b : Buffer) :
    IsCut b (cut b) ∧ raw (cut b) = raw b ∧
    (∃ lead : Buffer, ∃ row : List Stretch, (∀ f ∈ lead, f.isGap = true) ∧
      cut b = lead ++ row.flatMap Stretch.source ∧ collapsed b = joined row) ∧
    collapsed (collapsed b) = collapsed b ∧
    ∀ (before after : Buffer) (s t : Text),
      collapse (before ++ .text s :: .text t :: after) =
        collapse (before ++ .text (s ++ t) :: after) ∧
      collapseWith Markdown.escapeLabel (before ++ .text s :: .text t :: after) =
        collapseWith Markdown.escapeLabel (before ++ .text (s ++ t) :: after) := by
  refine ⟨isCut_cut b, (isCut_cut b).raw_eq, ?_, collapsed_collapsed b, fun before after s t =>
    ⟨collapseWith_split (fun _ _ => rfl) before after s t,
      collapseWith_split Markdown.escapeLabel_append before after s t⟩⟩
  obtain ⟨lead, row, hlead, hcut⟩ :=
    exists_stretches fun f (hf : f ∈ cut b) => isContent_or_isGap_of_mem_cut hf
  refine ⟨lead, row, hlead, hcut, ?_⟩
  rw [collapsed, collapsedWith, atoms_id, hcut, List.map_append, settle_gap hlead, settle_stretches]

/-- Literal text around a strong word, with white space at both ends of the line and two hard breaks
in it. -/
def paragraph : Buffer :=
  [.text " a  [b]".toList, .markup "**c**".toList, .text "\t".toList, .hardBreak ['\n'],
    .text " ".toList, .hardBreak ['\n'], .text "d ".toList]

theorem paragraph_canonical :
    IsCut paragraph (cut paragraph) ∧ raw (cut paragraph) = raw paragraph ∧
    cut paragraph = [.text [' '], .text ['a'], .text [' ', ' '], .text "[b]".toList,
      .markup "**c**".toList, .text ['\t'], .hardBreak ['\n'], .text [' '], .hardBreak ['\n'],
      .text ['d'], .text [' ']] ∧
    collapsed paragraph = [.text ['a'], .text [' '], .text "[b]".toList, .markup "**c**".toList,
      .hardBreak ['\n', '\n'], .text ['d']] ∧
    collapsed (collapsed paragraph) = collapsed paragraph ∧
    collapse (.text " a ".toList :: .text " [b]".toList :: paragraph.tail) =
      "a [b]**c**\n\nd".toList ∧
    collapseWith Markdown.escapeLabel (.text " a ".toList :: .text " [b]".toList ::
      paragraph.tail) = "a \\[b\\]**c**\n\nd".toList := by
  obtain ⟨hcut, hraw, _, hagain, hsplit⟩ := collapsed_canonical paragraph
  obtain ⟨hplain, hescaped⟩ := hsplit [] paragraph.tail " a ".toList " [b]".toList
  exact ⟨hcut, hraw, by decide, by decide, hagain, hplain.trans (by decide),
    hescaped.trans (by decide)⟩

end Buffer

end Hypermark
