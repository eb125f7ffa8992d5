import Hypermark.Proofs.LineMarks
import Hypermark.Proofs.WordBoundaries

/-!
# Hard breaks between words

With spaces for its hard breaks a buffer reads as what is kept of the marks of its nodes, and so it
does after collapsing.  What it asks of its parent is another matter: a break at an edge of a child
asks for nothing, so it is lost with the white space next to it.

* `collapsed_softened`: hard breaks collapse as spaces do.
* `Traces.addSurrounded`: a child goes into its parent with what is kept at its edges.
* `Traces.words_collapsed`: a line has the words of the marks that are kept.
* `words_apart_iff`: it has the words of its source exactly if no two of them are glued.
-/

namespace Hypermark

open Text

namespace Buffer

open Inline

/-! ## Hard breaks as spaces -/

/-- A hard break as a space in a text. -/
def soften : Fragment → Fragment
  | .hardBreak t => .text (if t.isEmpty then [] else [' '])
  | f => f

/-- The buffer with spaces for its hard breaks. -/
def softened (b : Buffer) : Buffer := b.map soften

def softenAtom : Atom → List Atom
  | .piece f => [.piece (soften f)]
  | .space => [.space]
  | .breaks n => if n = 0 then [] else [.space]

/-- A gap in which hard breaks count as spaces. -/
def Gap.softened (g : Gap) : Gap := ⟨g.space || decide (0 < g.breaks), 0⟩

theorem softened_append (a b : Buffer) : softened (a ++ b) = softened a ++ softened b :=
  List.map_append

theorem softened_gap (g : Gap) : softened g.fragments = g.softened.fragments := by
  unfold Gap.fragments Gap.softened
  by_cases hbreaks : 0 < g.breaks
  · obtain ⟨n, hn⟩ := Nat.exists_eq_add_of_le' hbreaks
    rw [if_pos hbreaks, if_neg (Nat.lt_irrefl 0), decide_eq_true hbreaks, Bool.or_true, if_pos rfl,
      hn]
    rfl
  · rw [if_neg hbreaks, if_neg (Nat.lt_irrefl 0), decide_eq_false hbreaks, Bool.or_false]
    split <;> rfl

theorem atoms_softened (b : Buffer) :
    atoms id (softened b) = (atoms id b).flatMap softenAtom := by
  induction b with
  | nil => rfl
  | cons f b ih =>
    have hf : atomsOf id (soften f) = (atomsOf id f).flatMap softenAtom := by
      cases f with
      | text t =>
        show atomsOf id (.text t) = (atomsOf id (.text t)).flatMap softenAtom
        rw [atomsOf]
        induction runs t with
        | nil => rfl
        | cons run rest ih =>
          rw [List.map_cons, List.flatMap_cons, ← ih]
          split <;> rfl
      | markup m => rfl
      | hardBreak t =>
        cases t with
        | nil => rfl
        | cons c t => rfl
    show atomsOf id (soften f) ++ atoms id (softened b) =
      (atomsOf id f ++ atoms id b).flatMap softenAtom
    rw [List.flatMap_append, hf, ih]

theorem settleAfter_softened (gap : Gap) (as : List Atom) :
    settleAfter gap.softened (as.flatMap softenAtom) = softened (settleAfter gap as) := by
  induction as generalizing gap with
  | nil => rfl
  | cons a as ih =>
    cases a with
    | piece f =>
      show gap.softened.fragments ++ soften f :: settleAfter Gap.none _ =
        softened (gap.fragments ++ f :: settleAfter Gap.none as)
      rw [softened_append, softened_gap]
      exact congrArg _ (congrArg _ (ih Gap.none))
    | space =>
      rw [settleAfter, ← ih]
      show settleAfter { gap.softened with space := true } _ = _
      rfl
    | breaks n =>
      rw [settleAfter, ← ih, List.flatMap_cons, softenAtom]
      by_cases hn : n = 0
      · rw [if_pos hn, hn]
        rfl
      · rw [if_neg hn]
        have hpos : 0 < gap.breaks + n := by omega
        show settleAfter { gap.softened with space := true } _ = _
        simp only [Gap.softened, decide_eq_true hpos, Bool.or_true]
        rfl

/-- Hard breaks collapse as spaces do. -/
theorem collapsed_softened (b : Buffer) : collapsed (softened b) = softened (collapsed b) := by
  have hsettle : ∀ as : List Atom, settle (as.flatMap softenAtom) = softened (settle as) := by
    intro as
    induction as with
    | nil => rfl
    | cons a as ih =>
      cases a with
      | piece f => exact congrArg (soften f :: ·) (settleAfter_softened Gap.none as)
      | space => exact ih
      | breaks n =>
        show settle (softenAtom (.breaks n) ++ as.flatMap softenAtom) = softened (settle as)
        rw [softenAtom, ← ih]
        split <;> rfl
  rw [collapsed, collapsedWith, atoms_softened, hsettle]
  rfl

/-! ## Edges -/

/-- What a buffer asks its parent for is told by the marks at its ends. -/
structure Edged (b : Buffer) (ms : List Mark) : Prop where
  starts : b.edges.1 = startsSpaced ms
  ends : b.edges.2 = startsSpaced ms.reverse
  empty : b = [] ↔ ∀ m ∈ ms, m.isLost = true
  texts : (∀ m ∈ ms, m.isLetter = false) → b.any Fragment.isText = ms.any Mark.isSpaced

theorem edged_nil : Edged [] [] := ⟨rfl, rfl, by simp, fun _ => rfl⟩

theorem Edged.append {b c : Buffer} {ms ks : List Mark} (hb : Edged b ms) (hc : Edged c ks) :
    Edged (b ++ c) (ms ++ ks) where
  starts := by
    by_cases hnil : b = []
    · rw [startsSpaced_append_of_lost (hb.empty.mp hnil), hnil]
      exact hc.starts
    · rw [startsSpaced_append_of_kept fun h => hnil (hb.empty.mpr h), ← hb.starts, edges, edges,
        List.head?_append_of_ne_nil _ hnil]
  ends := by
    rw [List.reverse_append]
    by_cases hnil : c = []
    · rw [startsSpaced_append_of_lost (by simpa using hc.empty.mp hnil), hnil, List.append_nil]
      exact hb.ends
    · rw [startsSpaced_append_of_kept fun h => hnil (hc.empty.mpr (by simpa using h)), ← hc.ends,
        edges, edges, List.getLast?_append_of_ne_nil _ hnil]
  empty := by
    rw [List.append_eq_nil_iff, hb.empty, hc.empty, List.forall_mem_append]
  texts := by
    intro h
    rw [List.forall_mem_append] at h
    rw [List.any_append, List.any_append, hb.texts h.1, hc.texts h.2]

theorem edged_text {t : Text} (ht : t ≠ []) : Edged [.text t] (t.map .shown) where
  starts := by
    obtain ⟨c, t, rfl⟩ := List.exists_cons_of_ne_nil ht
    rfl
  ends := by
    obtain ⟨s, c, rfl⟩ := (List.eq_nil_or_concat' t).resolve_left ht
    rw [Follows.edges_text, endsSpaced, List.getLast?_concat, List.map_append, List.reverse_append]
    rfl
  empty := by
    obtain ⟨c, t, rfl⟩ := List.exists_cons_of_ne_nil ht
    refine iff_of_false (List.cons_ne_nil _ _) fun h => ?_
    exact absurd (h _ (List.mem_cons_self ..)) Bool.false_ne_true
  texts := by
    obtain ⟨c, t, rfl⟩ := List.exists_cons_of_ne_nil ht
    intro h
    have hc : (!isSpace c) = false := h (.shown c) (List.mem_cons_self ..)
    show true = (isSpace c || (t.map Mark.shown).any Mark.isSpaced)
    rw [show isSpace c = true by simpa using hc, Bool.true_or]

theorem edged_break : Edged [.hardBreak ['\n']] [.hardBreak] :=
  ⟨rfl, rfl, by simp [Mark.isLost], fun _ => rfl⟩

/-- One space stands for white space that is kept, if there is any. -/
theorem edged_spaces {ks : List Mark} (h : ∀ k ∈ ks, k.isLost = true ∨ k.isSpaced = true) :
    Edged (spaceIf (ks.any Mark.isSpaced) []) ks := by
  have hfirst : ∀ ks : List Mark, (∀ k ∈ ks, k.isLost = true ∨ k.isSpaced = true) →
      startsSpaced ks = ks.any Mark.isSpaced := by
    intro ks h
    induction ks with
    | nil => rfl
    | cons k ks ih =>
      rw [List.forall_mem_cons] at h
      cases k with
      | shown c =>
        have hc := h.1.resolve_left Bool.false_ne_true
        rw [List.any_cons, hc]
        exact hc
      | hardBreak => exact absurd h.1 (by simp [Mark.isLost, Mark.isSpaced])
      | lost c hc => exact ih h.2
  have hlost : (ks.any Mark.isSpaced = false) ↔ ∀ m ∈ ks, m.isLost = true := by
    rw [List.any_eq_false]
    refine ⟨fun hnone m hm => (h m hm).resolve_right (hnone m hm), fun hall m hm => ?_⟩
    have hm := hall m hm
    cases m with
    | lost c hc => exact Bool.false_ne_true
    | shown c => cases hm
    | hardBreak => cases hm
  have hback := hfirst ks.reverse fun k hk => h k (List.mem_reverse.mp hk)
  rw [List.any_reverse] at hback
  refine ⟨?_, ?_, ?_, fun _ => ?_⟩
  · rw [hfirst ks h]
    cases ks.any Mark.isSpaced <;> rfl
  · rw [hback]
    cases ks.any Mark.isSpaced <;> rfl
  · rw [← hlost]
    cases ks.any Mark.isSpaced <;> simp [spaceIf, addText]
  · cases ks.any Mark.isSpaced <;> rfl

theorem edged_of_lettered {mid : List Mark} (h : Lettered mid) {c : Buffer} (hc : c ≠ [])
    (hedges : c.edges = (false, false)) : Edged c mid := by
  have hstarts := h.startsSpaced_append []
  have hends := h.reverse.startsSpaced_append []
  obtain ⟨m, s, hms, hm⟩ := h.starts
  rw [List.append_nil] at hstarts hends
  refine ⟨by rw [hedges, hstarts], by rw [hedges, hends], iff_of_false hc fun hlost => ?_,
    fun hnone => ?_⟩
  · obtain ⟨d, rfl, _⟩ := exists_of_isLetter hm
    have hd := hlost (.shown d) (by rw [hms]; exact List.mem_cons_self ..)
    cases hd
  · rw [hnone m (by rw [hms]; exact List.mem_cons_self ..)] at hm
    cases hm

/-! ## Traces -/

/-- The buffer, with spaces for its hard breaks, reads as what is kept of the marks, and asks its
parent for spaces as they tell. -/
structure Traces (b : Buffer) (ms : List Mark) : Prop where
  follows : Follows (softened b) (keptText ms)
  edged : Edged b ms

namespace Traces

variable {b child : Buffer} {ms ks : List Mark}

theorem nil : Traces [] [] := ⟨.nil, edged_nil⟩

theorem addText (h : Traces b ms) (t : Text) : Traces (b.addText t) (ms ++ t.map .shown) := by
  have hkept : keptText (ms ++ t.map .shown) = keptText ms ++ t := by
    rw [keptText_append, keptText_shown]
  have hsoft : softened (b.addText t) = (softened b).addText t := by
    unfold Buffer.addText
    split
    · rfl
    · exact softened_append b [.text t]
  refine ⟨by rw [hsoft, hkept]; exact h.follows.addText t, ?_⟩
  unfold Buffer.addText
  split
  · rename_i hempty
    rw [List.isEmpty_iff.mp hempty, List.map_nil, List.append_nil]
    exact h.edged
  · rename_i hne
    exact h.edged.append (edged_text fun ht => hne (List.isEmpty_iff.mpr ht))

theorem addBreak (h : Traces b ms) : Traces b.addBreak (ms ++ [.hardBreak]) := by
  refine ⟨?_, h.edged.append edged_break⟩
  have hspace : Follows ((softened b).spaceIf true) (keptText ms ++ ['\n']) :=
    h.follows.spaceIf (by simp [isSpace]) rfl
  rw [keptText_append]
  rw [Buffer.addBreak, softened_append]
  exact hspace

/-- One space for white space that is kept, if there is any. -/
theorem spaceIf (h : Traces b ms) (hks : ∀ k ∈ ks, k.isLost = true ∨ k.isSpaced = true)
    {wanted : Bool} (hwanted : wanted = ks.any Mark.isSpaced) :
    Traces (b.spaceIf wanted) (ms ++ ks) := by
  have happend : ∀ b : Buffer, b.spaceIf wanted = b ++ Buffer.spaceIf wanted [] := by
    intro b
    cases wanted with
    | true => rfl
    | false => exact (List.append_nil b).symm
  have hsoft : softened (b.spaceIf wanted) = (softened b).spaceIf wanted := by
    rw [happend, happend (softened b), softened_append]
    cases wanted <;> rfl
  have hkept : (∀ c ∈ keptText ks, isSpace c = true) ∧
      (keptText ks).isEmpty = !ks.any Mark.isSpaced := by
    clear happend hsoft hwanted
    induction ks with
    | nil => exact ⟨List.forall_mem_nil _, rfl⟩
    | cons k ks ih =>
      rw [List.forall_mem_cons] at hks
      cases k with
      | lost c hc => exact ih hks.2
      | hardBreak => exact absurd hks.1 (by simp [Mark.isLost, Mark.isSpaced])
      | shown c =>
        have hc : isSpace c = true := hks.1.resolve_left Bool.false_ne_true
        refine ⟨List.forall_mem_cons.mpr ⟨hc, (ih hks.2).1⟩, ?_⟩
        rw [List.any_cons, show (Mark.shown c).isSpaced = isSpace c from rfl, hc]
        rfl
  refine ⟨?_, ?_⟩
  · rw [hsoft, keptText_append]
    exact h.follows.spaceIf hkept.1 (by rw [hkept.2, Bool.not_not, hwanted])
  · rw [happend, hwanted]
    exact h.edged.append (edged_spaces hks)

/-- The child shows nothing exactly if there are no letters in it. -/
theorem collapsed_eq_nil_iff (h : Traces b ms) :
    collapsed b = [] ↔ ∀ m ∈ ms, m.isLetter = false := by
  have hsoft : collapsed b = [] ↔ collapsed (softened b) = [] := by
    rw [collapsed_softened, softened, List.map_eq_nil_iff]
  rw [hsoft, ← spaces_keptText_iff]
  exact h.follows.reads.settle_eq_nil_iff

/-- A part that stays as it is, for marks from letter to letter. -/
theorem closed (h : Traces b ms) {c : Buffer} (hc : Closed (softened c)) {mid : List Mark}
    (hmid : Lettered mid) (hplain : plain (softened c) = collapseSpaces (keptText mid))
    (hsolid : Solid (plain (softened c))) : Traces (b ++ c) (ms ++ mid) := by
  have hne : c ≠ [] := fun hnil => hc.ne_nil (by rw [hnil]; rfl)
  have hsoft := edges_of_solid hsolid
  -- A break at an edge would be a space once it is softened, so there is none.
  have hedges : c.edges = (false, false) := by
    have hopens : ∀ f : Fragment, f.opensWithSpace = true → (soften f).opensWithSpace = true :=
      fun f hf => by cases f <;> first | exact hf | cases hf
    have hends : ∀ f : Fragment, f.endsWithSpace = true → (soften f).endsWithSpace = true :=
      fun f hf => by cases f <;> first | exact hf | cases hf
    rw [Buffer.edges, Prod.mk.injEq, softened, List.head?_map, List.getLast?_map] at hsoft
    rw [Buffer.edges, Prod.mk.injEq]
    constructor
    · cases hhead : c.head? with
      | none => rfl
      | some f =>
        rw [hhead] at hsoft
        exact Bool.eq_false_iff.mpr fun hf => Bool.eq_false_iff.mp hsoft.1 (hopens f hf)
    · cases hlast : c.getLast? with
      | none => rfl
      | some f =>
        rw [hlast] at hsoft
        exact Bool.eq_false_iff.mpr fun hf => Bool.eq_false_iff.mp hsoft.2 (hends f hf)
  refine ⟨?_, h.edged.append (edged_of_lettered hmid hne hedges)⟩
  rw [softened_append, keptText_append]
  exact h.follows.closed hc hmid.solid hplain hsolid

/-- A child goes into its parent with the white space of its texts at its edges, and without the
breaks there. -/
theorem addSurrounded (h : Traces b ms) (hchild : Traces child ks) (hne : collapsed child ≠ [])
    {c : Buffer} (hc : Closed (softened c))
    (hplain : plain (softened c) = plain (softened (collapsed child))) :
    Traces (b.addSurrounded child c) (ms ++ carried ks) := by
  rcases carried_cases ks with ⟨hnone, -⟩ | ⟨l, mid, r, hks, hl, hmid, hr, hcarried⟩
  · exact absurd (hchild.collapsed_eq_nil_iff.mpr hnone) hne
  have hfirst : child.edges.1 = (l.map (Mark.atEdge (startsSpaced ks))).any Mark.isSpaced := by
    rw [hchild.edged.starts, any_isSpaced_atEdge _ hl]
    cases hstarts : startsSpaced ks with
    | false => rfl
    | true =>
      rw [hks] at hstarts
      rw [any_isSpaced_of_startsSpaced hmid hstarts]
      rfl
  have hlast : child.edges.2 =
      (r.map (Mark.atEdge (startsSpaced ks.reverse))).any Mark.isSpaced := by
    rw [hchild.edged.ends, any_isSpaced_atEdge _ hr]
    cases hends : startsSpaced ks.reverse with
    | false => rfl
    | true =>
      rw [hks, List.reverse_append, List.reverse_append, ← List.append_assoc] at hends
      have hspaced := any_isSpaced_of_startsSpaced hmid.reverse hends
      rw [List.any_reverse] at hspaced
      rw [hspaced]
      rfl
  have hsoft : collapsed (softened child) ≠ [] := by
    rw [collapsed_softened, softened, ne_eq, List.map_eq_nil_iff]
    exact hne
  have hmiddle : plain (softened c) = collapseSpaces (keptText mid) := by
    rw [hplain, ← collapsed_softened]
    refine hchild.follows.plain_middle hsoft ?_ (spaces_keptText_iff.mpr hl) hmid.solid
      (spaces_keptText_iff.mpr hr)
    rw [hks, keptText_append, keptText_append]
  have hsolid : Solid (plain (softened c)) := by
    rw [hplain, ← collapsed_softened]
    exact hchild.follows.reads.solid.resolve_left hsoft
  have hbefore := h.spaceIf (List.forall_mem_map.mpr fun k hk =>
    (isSpaced_atEdge (startsSpaced ks) (hl k hk)).2) hfirst
  have hwith := hbefore.closed hc hmid hmiddle hsolid
  have hafter := hwith.spaceIf (List.forall_mem_map.mpr fun k hk =>
    (isSpaced_atEdge (startsSpaced ks.reverse) (hr k hk)).2) hlast
  rw [List.append_assoc ms, List.append_assoc ms, ← hcarried] at hafter
  exact hafter

/-- A child without letters leaves a space if it held white space in a text. -/
theorem addStandIn (h : Traces b ms) (hchild : Traces child ks) (hnil : collapsed child = []) :
    Traces (b.addStandIn child) (ms ++ carried ks) := by
  have hnone := hchild.collapsed_eq_nil_iff.mp hnil
  rcases carried_cases ks with ⟨-, hcarried⟩ | ⟨l, mid, r, hks, -, hmid, -, -⟩
  · rw [hcarried]
    refine h.spaceIf (List.forall_mem_map.mpr fun k hk => (isSpaced_atEdge true (hnone k hk)).2) ?_
    rw [hchild.edged.texts hnone, any_isSpaced_atEdge true hnone, Bool.true_and]
  · obtain ⟨m, s, hms, hm⟩ := hmid.starts
    have hmem : m ∈ ks := by
      rw [hks, hms]
      simp
    rw [hnone m hmem] at hm
    cases hm

theorem addWrapped (h : Traces b ms) (hchild : Traces child ks) (delimiter : Text) :
    Traces (b.addWrapped child delimiter) (ms ++ carried ks) := by
  unfold Buffer.addWrapped
  by_cases hnil : collapsed child = []
  · rw [hnil]
    exact h.addStandIn hchild hnil
  · have hempty : (collapsed child).isEmpty = false := List.isEmpty_eq_false_iff.mpr hnil
    have hsoft : collapsed (softened child) ≠ [] := by
      rw [collapsed_softened, softened, ne_eq, List.map_eq_nil_iff]
      exact hnil
    have hmark := closed_markup delimiter
    have hclosed :
        Closed (softened ([.markup delimiter] ++ collapsed child ++ [.markup delimiter])) := by
      rw [softened_append, softened_append, ← collapsed_softened]
      exact (hmark.append (closed_collapsed hsoft)).append hmark
    have hplain : plain (softened ([.markup delimiter] ++ collapsed child ++ [.markup delimiter])) =
        plain (softened (collapsed child)) := by
      rw [softened_append, softened_append, plain_append, plain_append]
      exact (List.append_nil _).trans (List.nil_append _)
    simp only [hempty, Bool.false_eq_true, if_false]
    exact h.addSurrounded hchild hnil hclosed hplain

theorem addAnchor (h : Traces b ms) (hchild : Traces child ks) :
    Traces (Inline.addAnchor b child) (ms ++ carried ks) := by
  unfold Inline.addAnchor
  by_cases hnil : collapsed child = []
  · rw [hnil]
    exact h.addStandIn hchild hnil
  · have hempty : (collapsed child).isEmpty = false := List.isEmpty_eq_false_iff.mpr hnil
    have hclosed : Closed (softened (collapsed child)) := by
      rw [← collapsed_softened]
      refine closed_collapsed ?_
      rw [collapsed_softened, softened, ne_eq, List.map_eq_nil_iff]
      exact hnil
    simp only [hempty, Bool.false_eq_true, if_false]
    exact h.addSurrounded hchild hnil hclosed rfl

end Traces

/-- Hard breaks part words as spaces do. -/
theorem words_plain_softened {b : Buffer}
    (hb : ∀ t, .hardBreak t ∈ b → ∀ c ∈ t, isSpace c = true) :
    words (plain (softened b)) = words (plain b) := by
  suffices hbehind : ∀ s, words (s ++ plain (softened b)) = words (s ++ plain b) from hbehind []
  induction b with
  | nil => exact fun s => rfl
  | cons f b ih =>
    intro s
    have hrest := ih fun t ht => hb t (List.mem_cons_of_mem _ ht)
    have hsoft : plain (softened (f :: b)) = plain [soften f] ++ plain (softened b) :=
      plain_append [soften f] (softened b)
    rw [hsoft, show plain (f :: b) = plain [f] ++ plain b from plain_append [f] b]
    cases f with
    | text t => rw [← List.append_assoc, ← List.append_assoc]; exact hrest _
    | markup m => exact hrest s
    | hardBreak t =>
      have hblank : ∀ c ∈ t, isBlank c = true := fun c hc =>
        isBlank_of_isSpace (hb t (List.mem_cons_self ..) c hc)
      cases t with
      | nil => exact hrest s
      | cons c t =>
        have hbreak : plain [.hardBreak (c :: t)] = c :: t := List.append_nil _
        have hspace : plain [soften (.hardBreak (c :: t))] = [' '] := rfl
        have hone : ∀ c ∈ [' '], isBlank c = true := (List.forall_mem_singleton ..).mpr rfl
        rw [hbreak, hspace, ← List.append_assoc, ← List.append_assoc,
          gauge_words.gap s (List.cons_ne_nil _ _) hone,
          gauge_words.gap s (List.cons_ne_nil _ _) hblank]
        exact congrArg _ (hrest [])

/-- The hard breaks of a collapsed buffer are line feeds. -/
theorem spaces_of_mem_collapsed {b : Buffer} {t : Text} (h : .hardBreak t ∈ collapsed b) :
    ∀ c ∈ t, isSpace c = true := by
  have hfeeds : ∀ f ∈ collapsed b, ∀ t, f = .hardBreak t → ∀ c ∈ t, isSpace c = true := by
    refine forall_mem_settle (fun n t ht c hc => ?_) (fun t ht => by cases ht) fun f hf t ht => ?_
    · cases ht
      rw [List.eq_of_mem_replicate hc]
      rfl
    · rcases of_piece_mem_atoms hf with ⟨m, rfl, _⟩ | ⟨_, run, rfl, _⟩
      · cases ht
      · cases ht
  exact hfeeds _ h t rfl

/-- What a traced buffer shows has the words of the marks that are kept. -/
theorem Traces.words_collapsed {b : Buffer} {ms : List Mark} (h : Traces b ms) :
    words (plain (collapsed b)) = words (keptText ms) := by
  calc words (plain (collapsed b))
      = words (plain (softened (collapsed b))) :=
        (words_plain_softened fun _ => spaces_of_mem_collapsed).symm
    _ = words (plain (collapsed (softened b))) := by rw [collapsed_softened]
    _ = words (trimSpaces (collapseSpaces (keptText ms))) := by rw [h.follows.plain_collapsed]
    _ = words (keptText ms) := by rw [words_trimSpaces, words_collapseSpaces]

end Buffer

/-! ## Nodes -/

/-- The element by itself adds no image, code or link to a line. -/
def Node.isBroken (n : Node) : Bool := n.role == .lineBreak || n.isFlowing

namespace Inline

open Buffer Node

/-- A node adds its marks to a buffer, and is no dropped link. -/
def AddsMarks (n : Node) : Prop :=
  n.everyShown isBroken = true → ∀ scope b ms, Traces b ms →
    Traces (addNode scope n b).1 (ms ++ n.marks) ∧ (addNode scope n b).2 = false

theorem traces_addNodes {ns : List Node} (h : ∀ n ∈ ns, n.Throughout AddsMarks)
    (hshown : ∀ n ∈ ns, n.everyShown isBroken = true) (scope : Scope) {b : Buffer} {ms : List Mark}
    (hb : Traces b ms) : Traces (addNodes scope false ns b) (ms ++ marksAll ns) := by
  induction ns generalizing b ms with
  | nil =>
    rw [addNodes, marksAll, List.append_nil]
    exact hb
  | cons n ns ih =>
    rw [List.forall_mem_cons] at h hshown
    obtain ⟨hn, hkept⟩ := h.1.here hshown.1 scope b ms hb
    rw [addNodes_cons, hkept, marksAll, ← List.append_assoc]
    exact ih h.2 hshown.2 hn

theorem addsMarks (n : Node) : n.Throughout AddsMarks := by
  refine Node.throughout (fun n h => ?_) n
  intro hshown scope b ms hb
  cases n with
  | text t =>
    rw [addNode, marks]
    exact ⟨hb.addText _, rfl⟩
  | comment t =>
    rw [addNode, marks, List.append_nil]
    exact ⟨hb, rfl⟩
  | directive k t =>
    rw [addNode, marks, List.append_nil]
    exact ⟨hb, rfl⟩
  | element name attrs cs =>
    by_cases hi : (element name attrs cs).role = .ignored
    · simp only [addNode, marks, hi, List.append_nil]
      exact ⟨hb, trivial⟩
    obtain ⟨hhere, hbelow⟩ := everyShown_of_not_ignored hshown hi
    have hchild : Traces (addNodes (name :: scope) false cs []) (marksAll cs) :=
      traces_addNodes h hbelow (name :: scope) Traces.nil
    show Traces _ (ms ++ (element name attrs cs).marks) ∧ _
    cases hrole : (element name attrs cs).role with
    | ignored => exact absurd hrole hi
    | link =>
      have hhref : (hrefOf (element name attrs cs)).isEmpty = true := by
        simpa [isBroken, isFlowing, hrole] using hhere
      simp only [addNode, marks, hrole, if_pos hhref]
      exact ⟨hb.addAnchor hchild, trivial⟩
    | lineBreak =>
      simp only [addNode, marks, hrole]
      exact ⟨hb.addBreak, trivial⟩
    | image => simp [isBroken, isFlowing, hrole] at hhere
    | code => simp [isBroken, isFlowing, hrole] at hhere
    | strong =>
      simp only [addNode, marks, hrole]
      exact ⟨hb.addWrapped hchild strongMark, trivial⟩
    | emphasis =>
      simp only [addNode, marks, hrole]
      exact ⟨hb.addWrapped hchild emphasisMark, trivial⟩
    | _ =>
      simp only [addNode, marks, hrole]
      exact ⟨traces_addNodes h hbelow (name :: scope) hb, trivial⟩

/-- A run of text, line breaks, emphasis and anchors, less its delimiters, has the words of its
source exactly if no two words have nothing between them but breaks, and white space next to them,
at an edge of an element. -/
theorem words_apart_iff (scope : Scope) {ns : List Node} (h : allShown isBroken ns = true) :
    words (collapsed (buffer scope ns)).plain = words (brokenTexts ns) ↔
      glues (marksAll ns) = false := by
  have hb : Traces (buffer scope ns) (marksAll ns) :=
    traces_addNodes (fun n _ => addsMarks n) (allShown_iff.mp h) scope Traces.nil
  rw [hb.words_collapsed, ← map_source_marksAll, words_kept_iff]

/-- A break between the words of an emphasis, and one at its edge with a space outside. -/
def brokenLine : List Node :=
  [.text "a ".toList, .element "b".toList []
    [.element "br".toList [] [], .text "b".toList, .element "br".toList [] [], .text "c".toList]]

theorem broken_line_keeps_words :
    allShown isBroken brokenLine = true ∧ glues (marksAll brokenLine) = false ∧
      words (collapsed (buffer [] brokenLine)).plain = words (brokenTexts brokenLine) :=
  ⟨by decide, by decide, (words_apart_iff [] (by decide)).mpr (by decide)⟩

/-- A word, and an emphasis that begins with a break. -/
def gluedLine : List Node :=
  [.text "a".toList, .element "b".toList [] [.element "br".toList [] [], .text "b".toList]]

/-- The break at the edge of the emphasis is dropped, and nothing is put in its place. -/
theorem break_at_edge_glues_words :
    allShown isBroken gluedLine = true ∧
      ¬words (collapsed (buffer [] gluedLine)).plain = words (brokenTexts gluedLine) := by
  decide

end Inline

end Hypermark
