import Hypermark.Document.Node

/-!
What a tag means for the rendering.

* `Role.isBlock` tells the roles that start a block of their own from those that flow in a line.
* `Node.mem_byTag`: an element that is no phrase has its role from the table.
-/

namespace Hypermark

/-- The part that an element plays. -/
inductive Role where
  | heading (level : Nat)
  | paragraph
  | thematicBreak
  | quote
  | preformatted
  | list (ordered : Bool)
  | definitions
  | table
  | figure
  | container
  | link
  | lineBreak
  | image
  | strong
  | emphasis
  | code
  | ignored
  | phrase
deriving DecidableEq, Repr

namespace Role

/-- The tags with a role of their own; every other tag is a phrase. -/
def byTag : List (Text × Role) :=
  [("h1", heading 1), ("h2", heading 2), ("h3", heading 3), ("h4", heading 4), ("h5", heading 5),
    ("h6", heading 6), ("p", paragraph), ("figcaption", paragraph), ("hr", thematicBreak),
    ("blockquote", quote), ("pre", preformatted), ("ul", list false), ("ol", list true),
    ("dl", definitions), ("table", table), ("figure", figure), ("div", container),
    ("aside", container), ("article", container), ("section", container), ("main", container),
    ("header", container), ("footer", container), ("nav", container), ("body", container),
    ("html", container), ("a", link), ("br", lineBreak), ("img", image), ("strong", strong),
    ("b", strong), ("em", emphasis), ("i", emphasis), ("code", code), ("script", ignored),
    ("style", ignored), ("head", ignored), ("noscript", ignored), ("iframe", ignored),
    ("svg", ignored), ("canvas", ignored), ("template", ignored)].map
    fun e => (e.1.toList, e.2)

/-- The role of a tag, given in lower case. -/
def ofTag (tag : Text) : Role := (byTag.lookup tag).getD phrase

/-- The role starts a block instead of flowing in a line. -/
def isBlock : Role → Bool
  | heading _ | paragraph | thematicBreak | quote | preformatted | list _ | definitions | table
  | figure | container => true
  | _ => false

end Role

namespace Node

/-- The role of an element; a node that is none flows in a line. -/
def role : Node → Role
  | element name _ _ => Role.ofTag (Text.lower name)
  | _ => .phrase

/-- The node starts a block. -/
def isBlock (n : Node) : Bool := n.role.isBlock

/-! ## Lemmas -/

theorem isBlock_of_role {n : Node} {role : Role} (hrole : n.role = role)
    (h : role.isBlock = true) : n.isBlock = true := by
  rw [isBlock, hrole, h]

theorem mem_byTag {n : Node} (h : n.role ≠ .phrase) : (n.tag, n.role) ∈ Role.byTag := by
  cases n with
  | element name attrs cs =>
    have hrole : (element name attrs cs).role = (Role.byTag.lookup (Text.lower name)).getD .phrase :=
      rfl
    cases he : Role.byTag.lookup (Text.lower name) with
    | none =>
      rw [hrole, he] at h
      exact absurd rfl h
    | some role =>
      obtain ⟨before, after, hsplit, _⟩ := List.lookup_eq_some_iff.mp he
      rw [hrole, he, hsplit]
      exact List.mem_append_right _ (List.mem_cons_self ..)
  | text t => exact absurd rfl h
  | comment t => exact absurd rfl h
  | directive k t => exact absurd rfl h

end Node

end Hypermark
