import Hypermark.Proofs.Collapsing
import Hypermark.Proofs.Prose
import Hypermark.Proofs.Recursion

/-!
# Word boundaries in a line

Every element of a line renders its children into a buffer of their own, which is collapsed and
loses the white space at its edges; the element then puts a space on either side where there was
some.  `Reads` says that atoms read as a source text does: the same words with the same boundaries,
and a gap at the end exactly if the text ends in white space.  It is kept by every way of adding to
a buffer, so emphasis and anchors neither glue words together nor split them.

* `Reads.space`, `Reads.closed`, `Reads.text`: what follows the atoms follows the text.
* `Follows.addSurrounded`: a child goes into its parent with the white space at its edges.
* `words_kept`: a run of text, emphasis and anchors has the words of its source.
-/

namespace Hypermark

def Fragment.isMarkup : Fragment → Bool
  | .markup _ => true
  | _ => false

/-- The element by itself adds no line break, image, code or link to a line. -/
def Node.isFlowing (n : Node) : Bool :=
  match n.role with
  | .lineBreak | .image | .code => false
  | .link => (Inline.hrefOf n).isEmpty
  | _ => true

namespace Buffer

open Text Inline

/-- The contents of a buffer less the finished Markdown in it. -/
def plain (b : Buffer) : Text := raw (b.filter (!·.isMarkup))

theorem plain_append (a b : Buffer) : plain (a ++ b) = plain a ++ plain b := by
  rw [plain, List.filter_append, raw_append]
  rfl

theorem plain_markup (m : Text) : plain [.markup m] = [] := rfl

theorem plain_text (t : Text) : plain [.text t] = t := List.append_nil t

/-- A buffer without white space at its edges does not ask for spaces around it. -/
theorem edges_of_solid {c : Buffer} (h : Solid (plain c)) : c.edges = (false, false) := by
  obtain ⟨d, s, hstart, hd⟩ := h.starts
  obtain ⟨s', e, hend, he⟩ := h.ends
  rw [edges, Prod.mk.injEq]
  constructor
  · cases c with
    | nil => rfl
    | cons f c =>
      cases f with
      | text t =>
        cases t with
        | nil => rfl
        | cons x t =>
          obtain rfl : x = d := (List.cons.inj hstart).1
          exact hd
      | markup t => rfl
      | hardBreak t => rfl
  · rcases List.eq_nil_or_concat' c with rfl | ⟨c, f, rfl⟩
    · rfl
    rw [List.getLast?_concat]
    cases f with
    | text t =>
      rw [plain_append, plain_text] at hend
      rcases List.eq_nil_or_concat' t with rfl | ⟨t, x, rfl⟩
      · rfl
      rw [← List.append_assoc] at hend
      obtain rfl : x = e := List.singleton_inj.mp (List.append_inj' hend rfl).2
      show (t ++ [x]).getLast?.any isSpace = false
      rw [List.getLast?_concat]
      exact he
    | markup t => rfl
    | hardBreak t => rfl

/-! ## Atoms -/

/-- The atoms, less finished Markdown, are shown as the collapsed text is, and leave a gap open
exactly if the text ends in white space. -/
structure Reads (as : List Atom) (x : Text) : Prop where
  shown : plain (settle as ++ openGap as) = flushLeft x
  gap : settle as ≠ [] → gapFrom Gap.none as = ⟨endsSpaced x, 0⟩
  solid : settle as = [] ∨ Solid (plain (settle as))

namespace Reads

variable {as : List Atom} {x : Text}

theorem nil : Reads [] [] := ⟨rfl, fun h => absurd rfl h, .inl rfl⟩

/-- The gap of spaces is one space or nothing. -/
theorem shown_of_ne_nil (h : Reads as x) (hne : settle as ≠ []) :
    plain (settle as) ++ (if endsSpaced x then [' '] else []) = flushLeft x := by
  rw [← h.shown, plain_append, openGap, if_neg hne, h.gap hne]
  cases endsSpaced x
  · rfl
  · rfl

theorem settle_eq_nil_iff (h : Reads as x) : settle as = [] ↔ ∀ c ∈ x, isSpace c = true := by
  rw [← flushLeft_eq_nil_iff, ← h.shown]
  constructor
  · intro hnil
    rw [openGap, if_pos hnil, hnil]
    rfl
  · intro hnil
    rw [plain_append, List.append_eq_nil_iff] at hnil
    exact h.solid.resolve_right fun hsolid => hsolid.ne_nil hnil.1

/-- White space in the atoms for white space in the text. -/
theorem space (h : Reads as x) {w : Text} (hne : w ≠ []) (hw : ∀ c ∈ w, isSpace c = true) :
    Reads (as ++ [.space]) (x ++ w) := by
  have hends : endsSpaced (x ++ w) = true := by
    rw [endsSpaced_append hne, endsSpaced_of_spaces hne hw]
  have hsettle : settle (as ++ [.space]) = settle as := settle_append_of_nil as rfl
  by_cases hnil : settle as = []
  · have hx := h.settle_eq_nil_iff.mp hnil
    refine ⟨?_, fun hne => absurd (hsettle.trans hnil) hne, .inl (hsettle.trans hnil)⟩
    rw [openGap, hsettle, if_pos hnil, hnil]
    exact ((flushLeft_eq_nil_iff _).mpr (List.forall_mem_append.mpr ⟨hx, hw⟩)).symm
  · have hgap : gapFrom Gap.none (as ++ [.space]) = ⟨true, 0⟩ := by
      rw [gapFrom_append, h.gap hnil]
      rfl
    have hx : flushLeft x ≠ [] := by
      rw [ne_eq, flushLeft_eq_nil_iff, ← h.settle_eq_nil_iff]
      exact hnil
    refine ⟨?_, fun _ => by rw [hgap, hends], by rw [hsettle]; exact h.solid⟩
    rw [openGap, hsettle, if_neg hnil, hgap, plain_append, flushLeft_append_spaces hx hne hw,
      ← h.shown_of_ne_nil hnil, List.append_assoc]
    cases endsSpaced x
    · rfl
    · rfl

/-- A part that stays as it is for a text without white space at its edges. -/
theorem closed (h : Reads as x) {c : Buffer} (hc : Closed c) {m : Text} (hm : Solid m)
    (hplain : plain c = collapseSpaces m) (hsolid : Solid (plain c)) :
    Reads (as ++ atoms id c) (x ++ m) := by
  have hsettle := hc.settle_append_atoms as
  have hgap : gapFrom Gap.none (as ++ atoms id c) = Gap.none := by
    rw [gapFrom_append, hc.gapFrom_eq]
  have hne : settle (as ++ atoms id c) ≠ [] := by
    rw [hsettle]
    exact List.append_ne_nil_of_right_ne_nil _ hc.ne_nil
  refine ⟨?_, fun _ => ?_, .inr ?_⟩
  · rw [openGap, if_neg hne, hgap, hsettle, flushLeft_append_solid x hm, ← h.shown, ← hplain]
    rw [plain_append, plain_append (settle as ++ openGap as)]
    exact List.append_nil _
  · rw [hgap, endsSpaced_append hm.ne_nil, endsSpaced_of_solid hm]
    rfl
  · rw [hsettle, plain_append]
    rcases h.solid with hnil | hbefore
    · rw [openGap, if_pos hnil, hnil]
      exact hsolid
    · rw [plain_append]
      exact hbefore.append hsolid _

/-- Literal text for itself. -/
theorem text (h : Reads as x) (t : Text) : Reads (as ++ atomsOf id (.text t)) (x ++ t) := by
  suffices hruns : ∀ rs : List Text, (∀ r ∈ rs, r ∈ runs t) → ∀ {as : List Atom} {x : Text},
      Reads as x → Reads (as ++ rs.map fun run =>
        if run.all isSpace then .space else .piece (.text (id run))) (x ++ rs.flatten) by
    have := hruns (runs t) (fun _ hr => hr) h
    rwa [flatten_runs] at this
  intro rs
  induction rs with
  | nil =>
    intro _ as x h
    rwa [List.map_nil, List.flatten_nil, List.append_nil, List.append_nil]
  | cons r rs ih =>
    intro hrs as x h
    rw [List.forall_mem_cons] at hrs
    have hne : r ≠ [] := by
      obtain ⟨c, s, rfl, _⟩ := uniform_of_mem_runs hrs.1
      exact List.cons_ne_nil c s
    rw [List.map_cons, List.flatten_cons, List.append_cons, ← List.append_assoc x]
    by_cases hr : r.all isSpace = true
    · rw [if_pos hr]
      exact ih hrs.2 (h.space hne (List.all_eq_true.mp hr))
    · rw [if_neg hr]
      have hword := no_space_of_mem_runs hrs.1 (Bool.eq_false_iff.mpr hr)
      have hplain : plain [.text r] = collapseSpaces r :=
        (plain_text r).trans (collapseSpaces_of_no_space hword).symm
      have hsolid := solid_of_no_space hne hword
      have hstep := h.closed (closed_word hne hword) hsolid hplain (by rwa [plain_text])
      rw [atoms, List.flatMap_singleton, atomsOf_text hne hword] at hstep
      exact ih hrs.2 hstep

end Reads

/-! ## Buffers -/

/-- The buffer reads as the text does, and asks for spaces around it where the text has white space
at its edges. -/
structure Follows (b : Buffer) (x : Text) : Prop where
  reads : Reads (atoms id b) x
  edges : b.edges = (opensSpaced x, endsSpaced x)
  texts : settle (atoms id b) = [] → b.any Fragment.isText = !x.isEmpty
  empty : x = [] → b = []

namespace Follows

variable {b child : Buffer} {x y : Text}

theorem nil : Follows [] [] := ⟨.nil, rfl, fun _ => rfl, fun _ => rfl⟩

theorem eq_nil (h : Follows b x) (hb : b = []) : x = [] := by
  subst hb
  have htexts := h.texts rfl
  cases x with
  | nil => rfl
  | cons c x => cases htexts

/-- Fragments at the end that read as a text with the same white space at its edges. -/
theorem append (h : Follows b x) {c : Buffer} {m : Text}
    (hreads : Reads (atoms id (b ++ c)) (x ++ m)) (hedges : c.edges = (opensSpaced m, endsSpaced m))
    (hc : c ≠ []) (hm : m ≠ []) (htexts : settle (atoms id c) = [] → c.any Fragment.isText = true) :
    Follows (b ++ c) (x ++ m) := by
  rw [Buffer.edges, Prod.mk.injEq] at hedges
  refine ⟨hreads, ?_, fun hnil => ?_, fun hnil => absurd (List.append_eq_nil_iff.mp hnil).2 hm⟩
  · rw [Buffer.edges, Prod.mk.injEq, List.getLast?_append_of_ne_nil b hc, endsSpaced_append hm]
    refine ⟨?_, hedges.2⟩
    cases hb : b with
    | nil =>
      rw [h.eq_nil hb]
      exact hedges.1
    | cons f b' =>
      have hx : x ≠ [] := fun hx => by
        rw [h.empty hx] at hb
        cases hb
      have hfirst := (Prod.mk.inj h.edges).1
      rw [hb] at hfirst
      rw [opensSpaced_append hx, ← hfirst]
      rfl
  · rw [atoms_append, settle_append] at hnil
    have hcnil : settle (atoms id c) = [] := by
      split at hnil
      · exact hnil
      · exact (settleAfter_eq_nil_iff _ _).mp (List.append_eq_nil_iff.mp hnil).2
    have hxm : (x ++ m).isEmpty = false :=
      List.isEmpty_eq_false_iff.mpr (List.append_ne_nil_of_right_ne_nil x hm)
    rw [List.any_append, htexts hcnil, Bool.or_true, hxm]
    rfl

theorem edges_text (t : Text) : Buffer.edges [.text t] = (opensSpaced t, endsSpaced t) := by
  cases t with
  | nil => rfl
  | cons c t => rfl

theorem addText (h : Follows b x) (t : Text) : Follows (b.addText t) (x ++ t) := by
  unfold Buffer.addText
  split
  · rename_i hempty
    rw [List.isEmpty_iff.mp hempty, List.append_nil]
    exact h
  · rename_i hne
    have hne' : t ≠ [] := fun ht => hne (List.isEmpty_iff.mpr ht)
    refine h.append ?_ (edges_text t) (List.cons_ne_nil _ _) hne' fun _ => rfl
    rw [atoms_append, atoms, atoms, List.flatMap_singleton]
    exact h.reads.text t

/-- One space for white space, if there is any. -/
theorem spaceIf (h : Follows b x) {w : Text} (hw : ∀ c ∈ w, isSpace c = true) {wanted : Bool}
    (hwanted : wanted = !w.isEmpty) : Follows (b.spaceIf wanted) (x ++ w) := by
  subst hwanted
  unfold Buffer.spaceIf
  cases w with
  | nil =>
    rw [List.append_nil]
    exact h
  | cons c w =>
    have hne := List.cons_ne_nil c w
    show Follows (b ++ [.text [' ']]) (x ++ c :: w)
    refine h.append ?_ ?_ (List.cons_ne_nil _ _) hne fun _ => rfl
    · rw [atoms_append]
      exact h.reads.space hne hw
    · rw [edges_text, endsSpaced_of_spaces hne hw]
      have hc : isSpace c = true := hw c (List.mem_cons_self ..)
      rw [opensSpaced, opensSpaced]
      show (true, true) = (isSpace c, true)
      rw [hc]

theorem closed (h : Follows b x) {c : Buffer} (hc : Closed c) {m : Text} (hm : Solid m)
    (hplain : plain c = collapseSpaces m) (hsolid : Solid (plain c)) :
    Follows (b ++ c) (x ++ m) := by
  refine h.append ?_ ?_ hc.ne_nil hm.ne_nil fun hnil => ?_
  · rw [atoms_append]
    exact h.reads.closed hc hm hplain hsolid
  · rw [edges_of_solid hsolid, endsSpaced_of_solid hm]
    obtain ⟨d, s, rfl, hd⟩ := hm.starts
    rw [opensSpaced]
    exact congrArg (·, false) hd.symm
  · rw [← collapsedWith, ← collapsed, hc.settled] at hnil
    exact absurd hnil hc.ne_nil

/-- A child that collapsed to nothing leaves a space if it held white space. -/
theorem addStandIn (h : Follows b x) (hchild : Follows child y) (hnil : collapsed child = []) :
    Follows (b.addStandIn child) (x ++ y) :=
  h.spaceIf (hchild.reads.settle_eq_nil_iff.mp hnil) (hchild.texts hnil)

/-- The text less the white space at its edges is what the buffer shows. -/
theorem plain_middle (h : Follows b x) (hne : collapsed b ≠ []) {l m r : Text}
    (hx : x = l ++ m ++ r) (hl : ∀ c ∈ l, isSpace c = true) (hm : Solid m)
    (hr : ∀ c ∈ r, isSpace c = true) : plain (collapsed b) = collapseSpaces m := by
  have hshown := h.reads.shown_of_ne_nil hne
  rw [hx, endsSpaced_middle hm hr, flushLeft_middle hl hm hr] at hshown
  cases r with
  | nil => exact (List.append_inj' hshown rfl).1
  | cons d r => exact (List.append_inj' hshown rfl).1

/-- The buffer shows the collapsed text without white space at its edges. -/
theorem plain_collapsed (h : Follows b x) :
    plain (collapsed b) = trimSpaces (collapseSpaces x) := by
  show plain (settle (atoms id b)) = dropEndWhile isSpace (flushLeft x)
  rcases h.reads.solid with hnil | hsolid
  · rw [← h.reads.shown, openGap, if_pos hnil, hnil]
    rfl
  · have hne : settle (atoms id b) ≠ [] := by
      intro hnil
      rw [hnil] at hsolid
      exact hsolid.ne_nil rfl
    obtain ⟨s, c, hs, hc⟩ := hsolid.ends
    have hkeep : dropEndWhile isSpace (s ++ [c]) = s ++ [c] :=
      List.rdropWhile_concat_neg isSpace s c (by simp [hc])
    rw [← h.reads.shown_of_ne_nil hne, hs]
    cases endsSpaced x with
    | false => exact (congrArg _ (List.append_nil _)).trans hkeep |>.symm
    | true => exact ((List.rdropWhile_concat_pos isSpace (s ++ [c]) ' ' rfl).trans hkeep).symm

/-- A child goes into its parent with the white space at its edges. -/
theorem addSurrounded (h : Follows b x) (hchild : Follows child y) (hne : collapsed child ≠ [])
    {c : Buffer} (hc : Closed c) (hplain : plain c = plain (collapsed child)) :
    Follows (b.addSurrounded child c) (x ++ y) := by
  have hsolid : Solid (plain (collapsed child)) := hchild.reads.solid.resolve_left hne
  rcases exists_solid_middle y with hblank | ⟨l, m, r, rfl, hl, hm, hr⟩
  · exact absurd (hchild.reads.settle_eq_nil_iff.mpr hblank) hne
  have hfirst : child.edges.1 = !l.isEmpty := by
    rw [hchild.edges]
    exact opensSpaced_middle hl hm
  have hlast : child.edges.2 = !r.isEmpty := by
    rw [hchild.edges]
    exact endsSpaced_middle hm hr
  have hmiddle := hplain.trans (hchild.plain_middle hne rfl hl hm hr)
  have hbefore := h.spaceIf hl hfirst
  have hwith := hbefore.closed hc hm hmiddle (by rwa [hplain])
  have hafter := hwith.spaceIf hr hlast
  rw [List.append_assoc x, List.append_assoc x] at hafter
  exact hafter

theorem addWrapped (h : Follows b x) (hchild : Follows child y) (delimiter : Text) :
    Follows (b.addWrapped child delimiter) (x ++ y) := by
  unfold Buffer.addWrapped
  by_cases hnil : collapsed child = []
  · rw [hnil]
    exact h.addStandIn hchild hnil
  · have hempty : (collapsed child).isEmpty = false := List.isEmpty_eq_false_iff.mpr hnil
    have hclosed : Closed ([.markup delimiter] ++ collapsed child ++ [.markup delimiter]) :=
      ((closed_markup delimiter).append (closed_collapsed hnil)).append (closed_markup delimiter)
    have hplain : plain ([.markup delimiter] ++ collapsed child ++ [.markup delimiter]) =
        plain (collapsed child) := by
      rw [plain_append, plain_append, plain_markup, List.nil_append, List.append_nil]
    simp only [hempty, Bool.false_eq_true, if_false]
    exact h.addSurrounded hchild hnil hclosed hplain

theorem addAnchor (h : Follows b x) (hchild : Follows child y) :
    Follows (Inline.addAnchor b child) (x ++ y) := by
  unfold Inline.addAnchor
  by_cases hnil : collapsed child = []
  · rw [hnil]
    exact h.addStandIn hchild hnil
  · have hempty : (collapsed child).isEmpty = false := List.isEmpty_eq_false_iff.mpr hnil
    simp only [hempty, Bool.false_eq_true, if_false]
    exact h.addSurrounded hchild hnil (closed_collapsed hnil) rfl

end Follows

end Buffer

/-! ## Nodes -/

namespace Inline

open Buffer Text Node

/-- A node adds its visible text to a buffer, and is no dropped link. -/
def AddsText (n : Node) : Prop :=
  n.everyShown isFlowing = true → ∀ scope b x, Follows b x →
    Follows (addNode scope n b).1 (x ++ n.visibleText) ∧ (addNode scope n b).2 = false

theorem follows_addNodes {ns : List Node} (h : ∀ n ∈ ns, n.Throughout AddsText)
    (hflow : ∀ n ∈ ns, n.everyShown isFlowing = true) (scope : Scope) {b : Buffer} {x : Text}
    (hb : Follows b x) : Follows (addNodes scope false ns b) (x ++ visibleTexts ns) := by
  induction ns generalizing b x with
  | nil =>
    rw [addNodes, visibleTexts, List.append_nil]
    exact hb
  | cons n ns ih =>
    rw [List.forall_mem_cons] at h hflow
    obtain ⟨hn, hkept⟩ := h.1.here hflow.1 scope b x hb
    rw [addNodes_cons, hkept, visibleTexts, ← List.append_assoc]
    exact ih h.2 hflow.2 hn

theorem addsText (n : Node) : n.Throughout AddsText := by
  refine Node.throughout (fun n h => ?_) n
  intro hflow scope b x hb
  cases n with
  | text t =>
    rw [addNode, visibleText]
    exact ⟨hb.addText _, rfl⟩
  | comment t =>
    rw [addNode, visibleText, List.append_nil]
    exact ⟨hb, rfl⟩
  | directive k t =>
    rw [addNode, visibleText, List.append_nil]
    exact ⟨hb, rfl⟩
  | element name attrs cs =>
    by_cases hi : (element name attrs cs).role = .ignored
    · simp only [addNode, hi]
      rw [visibleText_of_ignored hi, List.append_nil]
      exact ⟨hb, trivial⟩
    obtain ⟨hhere, hbelow⟩ := everyShown_of_not_ignored hflow hi
    have hchild : Follows (addNodes (name :: scope) false cs []) (visibleTexts cs) :=
      follows_addNodes h hbelow (name :: scope) Follows.nil
    rw [visibleText_of_element rfl hi]
    show Follows _ (x ++ visibleTexts cs) ∧ _
    cases hrole : (element name attrs cs).role with
    | ignored => exact absurd hrole hi
    | link =>
      have hhref : (hrefOf (element name attrs cs)).isEmpty = true := by
        simpa only [isFlowing, hrole] using hhere
      simp only [addNode, hrole, if_pos hhref]
      exact ⟨hb.addAnchor hchild, trivial⟩
    | lineBreak => simp [isFlowing, hrole] at hhere
    | image => simp [isFlowing, hrole] at hhere
    | code => simp [isFlowing, hrole] at hhere
    | strong =>
      simp only [addNode, hrole]
      exact ⟨hb.addWrapped hchild strongMark, trivial⟩
    | emphasis =>
      simp only [addNode, hrole]
      exact ⟨hb.addWrapped hchild emphasisMark, trivial⟩
    | _ =>
      simp only [addNode, hrole]
      exact ⟨follows_addNodes h hbelow (name :: scope) hb, trivial⟩

/-- A run of text, emphasis and anchors, less its delimiters, has the words of its source with one
space between each two of them that white space sets apart. -/
theorem words_kept (scope : Scope) {ns : List Node} (h : allShown isFlowing ns = true) :
    (collapsed (buffer scope ns)).plain = trimSpaces (collapseSpaces (visibleTexts ns)) := by
  have hb : Follows (buffer scope ns) (visibleTexts ns) :=
    follows_addNodes (fun n _ => addsText n) (allShown_iff.mp h) scope Follows.nil
  exact hb.plain_collapsed

/-- White space in emphasis, in an empty element and on both sides of an edge is one space, and an
anchor in the middle of a word leaves the word whole. -/
theorem words_kept_in_sentence :
    let sentence : List Node := [
      .text "\nSay".toList,
      .element "b".toList [] [.text " no ".toList, .element "em".toList [] [.text "\n".toList]],
      .text "\twor".toList,
      .element "a".toList [("name".toList, some "x".toList)]
        [.comment "c".toList, .element "span".toList [] [.element "i".toList [] [.text "d ".toList]]]]
    allShown isFlowing sentence = true ∧
      (collapsed (buffer [] sentence)).plain = "Say no word".toList ∧
      raw (collapsed (buffer [] sentence)) = "Say **no** wor*d*".toList :=
  ⟨by decide, (words_kept [] (by decide)).trans (by decide), by decide⟩

end Inline

end Hypermark
