import Hypermark.Proofs.InlineMarkup
import Hypermark.Proofs.LinkGrammar

/-!
# Links and images that are read back

Labels and titles are escaped, so they come back from a reader as they were.  Destinations are not:
in angle brackets they may still hold an angle bracket or a line break, and at the end a backslash
escapes what closes the link.

* `collapseWith_escapeLabel`: a label of literal text is escaped as a whole.
* `markup_reads_back_iff`: links and images are read back exactly if their destination is.
* `angle_bracket_ends_destination`: a link that is not.
-/

namespace Hypermark

open Markdown

/-! ## Labels -/

/-- The fragment with a function applied to literal text. -/
def Fragment.mapText (f : Text → Text) : Fragment → Fragment
  | text t => text (f t)
  | g => g

namespace Buffer

/-- An atom with its literal text escaped. -/
def Atom.escape (escape : Text → Text) : Atom → Atom
  | .piece f => .piece (f.mapText escape)
  | a => a

theorem atoms_eq_map (escape : Text → Text) (b : Buffer) :
    atoms escape b = (atoms id b).map (Atom.escape escape) := by
  have hfragment : ∀ f, atomsOf escape f = (atomsOf id f).map (Atom.escape escape) := by
    intro f
    cases f with
    | text t =>
      rw [atomsOf, atomsOf, List.map_map]
      refine List.map_congr_left fun run _ => ?_
      rw [Function.comp_apply]
      split <;> rfl
    | markup t => rfl
    | hardBreak t => rfl
  rw [atoms, atoms, List.map_flatMap]
  exact congrArg (b.flatMap ·) (funext hfragment)

section Escape

variable {escape : Text → Text} (hspace : escape [' '] = [' '])
include hspace

theorem settleAfter_escape (gap : Gap) (as : List Atom) :
    settleAfter gap (as.map (Atom.escape escape)) =
      (settleAfter gap as).map (Fragment.mapText escape) := by
  have hgap : ∀ gap : Gap, gap.fragments.map (Fragment.mapText escape) = gap.fragments := by
    intro gap
    unfold Gap.fragments
    split
    · rfl
    split
    · exact congrArg (fun t => [Fragment.text t]) hspace
    · rfl
  induction as generalizing gap with
  | nil => rfl
  | cons a as ih =>
    cases a with
    | piece f =>
      rw [List.map_cons, Atom.escape, settleAfter, settleAfter, List.map_append, hgap,
        List.map_cons, ih]
    | space => exact ih _
    | breaks n => exact ih _

/-- Escaping the literal text while it collapses is escaping what has collapsed, fragment by
fragment: the white space between the pieces stays as it is. -/
theorem collapsedWith_eq_map (b : Buffer) :
    collapsedWith escape b = (collapsed b).map (Fragment.mapText escape) := by
  have hsettle : ∀ as : List Atom, settle (as.map (Atom.escape escape)) =
      (settle as).map (Fragment.mapText escape) := by
    intro as
    induction as with
    | nil => rfl
    | cons a as ih =>
      cases a with
      | piece f => exact congrArg (f.mapText escape :: ·) (settleAfter_escape hspace Gap.none as)
      | space => exact ih
      | breaks n => exact ih
  rw [collapsedWith, atoms_eq_map, hsettle]
  rfl

end Escape

/-- A label of literal text is escaped piece by piece as it would be at once. -/
theorem collapseWith_escapeLabel {b : Buffer} (h : ∀ f ∈ b, f.isText = true) :
    b.collapseWith escapeLabel = escapeLabel b.collapse := by
  have hfeeds : ∀ n, List.replicate n '\n' = escapeLabel (List.replicate n '\n') := by
    intro n
    induction n with
    | zero => rfl
    | succ n ih =>
      rw [List.replicate_succ, ← List.singleton_append, escapeLabel_append, ← ih]
      rfl
  have hfragment : ∀ f ∈ collapsed b,
      (f.mapText escapeLabel).content = escapeLabel f.content := by
    refine forall_mem_settle (Q := fun f => (f.mapText escapeLabel).content = escapeLabel f.content)
      hfeeds rfl fun f hf => ?_
    rcases of_piece_mem_atoms hf with ⟨m, rfl, hm⟩ | ⟨_, run, rfl, _⟩
    · cases h _ hm
    · rfl
  have hraw : ∀ c : Buffer, (∀ f ∈ c, (f.mapText escapeLabel).content = escapeLabel f.content) →
      raw (c.map (Fragment.mapText escapeLabel)) = escapeLabel (raw c) := by
    intro c hc
    induction c with
    | nil => rfl
    | cons f c ih =>
      rw [List.forall_mem_cons] at hc
      show (f.mapText escapeLabel).content ++ raw (c.map (Fragment.mapText escapeLabel)) =
        escapeLabel (f.content ++ raw c)
      rw [hc.1, ih hc.2, escapeLabel_append]
  rw [collapseWith, collapsedWith_eq_map rfl, hraw _ hfragment]
  rfl

end Buffer

/-! ## Links and images -/

namespace Inline

theorem ne_nil_of_isSafe {u : Text} (h : Link.isSafe u = true) : u ≠ [] := by
  rintro rfl
  cases h

theorem linkMarkup_reads_back_iff {label : Buffer} (hlabel : ∀ f ∈ label, f.isText = true)
    {href : Text} (hne : href ≠ []) :
    readInline? (linkMarkup (label.collapseWith escapeLabel) href) =
      some ⟨false, label.collapse, href, none⟩ ↔ Readable false href := by
  have hmarkup : linkMarkup (label.collapseWith escapeLabel) href =
      "[".toList ++ (escapeLabel label.collapse ++ "](".toList ++
        (formatDestination href ++ (titlePart [] ++ [')']))) := by
    rw [Buffer.collapseWith_escapeLabel hlabel, linkMarkup]
    simp only [titlePart, List.isEmpty_nil, if_true, List.nil_append, List.append_assoc]
    rfl
  rw [hmarkup]
  exact readInline?_eq_iff false label.collapse [] hne

theorem imageMarkup_eq {n : Node} (hsafe : Link.isSafe (sourceOf n) = true) :
    imageMarkup n = "![".toList ++ (altLabel n ++ "](".toList ++ (formatDestination (sourceOf n) ++
      (titlePart (n.attributeOrEmpty "title".toList) ++ [')']))) := by
  have hwritten : ((sourceOf n).isEmpty || !Link.isSafe (sourceOf n)) = false := by
    rw [hsafe, List.isEmpty_eq_false_iff.mpr (ne_nil_of_isSafe hsafe)]
    rfl
  rw [imageMarkup, hwritten]
  simp only [Bool.false_eq_true, if_false, List.append_assoc]

theorem imageMarkup_reads_back_iff {n : Node} (hsafe : Link.isSafe (sourceOf n) = true) :
    let title := n.attributeOrEmpty "title".toList
    readInline? (imageMarkup n) =
        some ⟨true, Text.trim (Text.collapseSpaces (n.attributeOrEmpty "alt".toList)), sourceOf n,
          if title.isEmpty then none else some title⟩ ↔
      Readable (!title.isEmpty) (sourceOf n) := by
  intro title
  rw [imageMarkup_eq hsafe]
  exact readInline?_eq_iff true _ title (ne_nil_of_isSafe hsafe)

theorem addNode_link {scope : Scope} {name : Text} {attrs : Attributes} {cs : List Node} {b : Buffer}
    (hrole : (Node.element name attrs cs).role = .link)
    (hsafe : Link.isSafe (hrefOf (.element name attrs cs)) = true) :
    addNode scope (.element name attrs cs) b =
      (addLink b (buffer (name :: scope) cs) (hrefOf (.element name attrs cs)), false) := by
  rw [addNode, hrole]
  show (if (hrefOf (.element name attrs cs)).isEmpty then _ else
    if Link.isSafe (hrefOf (.element name attrs cs)) then _ else _) = _
  rw [if_neg (by rw [List.isEmpty_iff]; exact ne_nil_of_isSafe hsafe), if_pos hsafe]
  rfl

theorem addNode_image {scope : Scope} {name : Text} {attrs : Attributes} {cs : List Node} {b : Buffer}
    (hrole : (Node.element name attrs cs).role = .image)
    (hsafe : Link.isSafe (sourceOf (.element name attrs cs)) = true) :
    addNode scope (.element name attrs cs) b =
      (b ++ [.markup (imageMarkup (.element name attrs cs))], false) := by
  rw [addNode, hrole]
  show (b.addMarkup (imageMarkup (.element name attrs cs)), false) = _
  rw [imageMarkup_eq hsafe]
  rfl

/-- A link with a label of literal text and an image are written as one piece of markup.  A reader
takes it for this link or image exactly if it can read the destination, and escapes do not change
the destination if there are none in it. -/
theorem markup_reads_back_iff (scope : Scope) (name : Text) (attrs : Attributes) (cs : List Node)
    (b : Buffer) :
    let n := Node.element name attrs cs
    let label := buffer (name :: scope) cs
    let alt := Text.trim (Text.collapseSpaces (n.attributeOrEmpty "alt".toList))
    let title := n.attributeOrEmpty "title".toList
    let link : Reading := ⟨false, label.collapse, hrefOf n, none⟩
    let image : Reading := ⟨true, alt, sourceOf n, if title.isEmpty then none else some title⟩
    (n.role = .link → Link.isSafe (hrefOf n) = true → (∀ f ∈ label, f.isText = true) →
      ∃ m, addNode scope n b = (b.addSurrounded label [.markup m], false) ∧
        (readInline? m = some link ↔ Readable false (hrefOf n)) ∧
        (readInline? m = some link ∧ resolve (hrefOf n) = hrefOf n ↔
          Readable false (hrefOf n) ∧ ∀ g ∈ glyphs (hrefOf n), g.escaped = false)) ∧
    (n.role = .image → Link.isSafe (sourceOf n) = true →
      ∃ m, addNode scope n b = (b ++ [.markup m], false) ∧
        (readInline? m = some image ↔ Readable (!title.isEmpty) (sourceOf n)) ∧
        (readInline? m = some image ∧ resolve (sourceOf n) = sourceOf n ↔
          Readable (!title.isEmpty) (sourceOf n) ∧
            ∀ g ∈ glyphs (sourceOf n), g.escaped = false)) := by
  intro n label alt title link image
  constructor
  · intro hrole hsafe hlabel
    have hread := linkMarkup_reads_back_iff hlabel (ne_nil_of_isSafe hsafe)
    exact ⟨_, addNode_link hrole hsafe, hread, and_congr hread resolve_eq_self_iff⟩
  · intro hrole hsafe
    have hread := imageMarkup_reads_back_iff hsafe
    exact ⟨_, addNode_image hrole hsafe, hread, and_congr hread resolve_eq_self_iff⟩

/-- A link with a space in its destination and brackets in its label, and an image with quotes in its
title. -/
theorem link_and_image_read_back :
    let link := Node.element "a".toList [("href".toList, some "/a b".toList)] [.text "[x]".toList]
    let image := Node.element "img".toList [("src".toList, some "i.png".toList),
      ("title".toList, some "\"q\"".toList)] []
    (∃ m, addNode [] link [] = ([.markup m], false) ∧
      readInline? m = some ⟨false, "[x]".toList, "/a b".toList, none⟩) ∧
    (∃ m, addNode [] image [] = ([.markup m], false) ∧
      readInline? m = some ⟨true, [], "i.png".toList, some "\"q\"".toList⟩) := by
  intro link image
  constructor
  · obtain ⟨m, hm, hread, _⟩ := (markup_reads_back_iff [] "a".toList
      [("href".toList, some "/a b".toList)] [.text "[x]".toList] []).1 rfl rfl (by decide)
    exact ⟨m, hm, hread.mpr (by decide)⟩
  · obtain ⟨m, hm, hread, _⟩ := (markup_reads_back_iff [] "img".toList [("src".toList,
      some "i.png".toList), ("title".toList, some "\"q\"".toList)] [] []).2 rfl rfl
    exact ⟨m, hm, hread.mpr (by decide)⟩

/-- The destination between the angle brackets has one of its own, which ends it too early. -/
theorem angle_bracket_ends_destination :
    let n := Node.element "a".toList [("href".toList, some "a b>c".toList)] [.text "l".toList]
    Link.isSafe (hrefOf n) = true ∧
      addNode [] n [] = ([.markup "[l](<a b>c>)".toList], false) ∧
      readInline? "[l](<a b>c>)".toList = none :=
  ⟨rfl, rfl, rfl⟩

end Inline

end Hypermark
