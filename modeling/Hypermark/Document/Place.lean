import Hypermark.Document.Attributes
import Hypermark.Document.Serialize
import Hypermark.Text.Quoted

/-!
Places in a document: a node together with where it stands.

Two nodes may look alike and be different ones, so what a search finds is a place.  Its path gives
the child positions from the node where the search began, and its scope the enclosing elements.

* `descendants` are in document order, elements only.
* `contains_of_mem_descendants`: what a search below a place finds is contained in it.
-/

namespace Hypermark

structure Place where
  /-- The positions of the children on the way to the node. -/
  path : List Nat
  scope : Scope
  node : Node
deriving Repr

namespace Place

/-- The root of a document. -/
def documentTag : Text := "[document]".toList

def ofDocument (nodes : List Node) : Place := ⟨[], [], .element documentTag [] nodes⟩

def tag (p : Place) : Text := p.node.tag

/-- The scope of the children. -/
def innerScope (p : Place) : Scope :=
  match p.node with
  | .element name _ _ => name :: p.scope
  | _ => p.scope

/-! ## Below a place -/

def siblings (path : List Nat) (scope : Scope) (i : Nat) : List Node → List Place
  | [] => []
  | n :: ns => ⟨path ++ [i], scope, n⟩ :: siblings path scope (i + 1) ns

def children (p : Place) : List Place := siblings p.path p.innerScope 0 p.node.children

def elementChildren (p : Place) : List Place := p.children.filter (·.node.isElement)

mutual

/-- The elements below a node that stands at `path`. -/
def elementsBelow (path : List Nat) (scope : Scope) : Node → List Place
  | .element name _ cs => elementsAmong path (name :: scope) 0 cs
  | _ => []

/-- The elements among siblings, the first of which is child `i`, and below them. -/
def elementsAmong (path : List Nat) (scope : Scope) (i : Nat) : List Node → List Place
  | [] => []
  | n :: ns =>
    (if n.isElement then [⟨path ++ [i], scope, n⟩] else []) ++
      elementsBelow (path ++ [i]) scope n ++ elementsAmong path scope (i + 1) ns

end

/-- The elements below a place in document order. -/
def descendants (p : Place) : List Place := elementsBelow p.path p.scope p.node

def findAll (p : Place) (q : Place → Bool) : List Place := p.descendants.filter q

def find? (p : Place) (q : Place → Bool) : Option Place := p.descendants.find? q

/-- The first element below with the tag `tag`. -/
def findTag? (p : Place) (tag : Text) : Option Place := p.find? fun q => q.tag == tag

/-- The place at a path that starts from the children of `p`. -/
def at? (p : Place) : List Nat → Option Place
  | [] => some p
  | i :: path => p.children[i]?.bind (·.at? path)

/-! ## Around a place -/

/-- An enclosing element has the tag `tag`. -/
def hasAncestor (p : Place) (tag : Text) : Bool := p.scope.any fun name => Text.lower name == tag

/-- `q` is `p` or stands below it, both paths starting from one node. -/
def contains (p q : Place) : Bool := p.path.isPrefixOf q.path

/-! ## Content -/

def text (p : Place) : Text := p.node.textIn p.scope

/-- The markup of a place; a document is its children. -/
def outerMarkup (p : Place) : Text :=
  if p.path.isEmpty then Node.markupAll false p.node.children else p.node.outerMarkup

/-- A short description of the node. -/
def summary (p : Place) : Text :=
  if p.node.isElement then "Node(<".toList ++ p.tag ++ ">)".toList
  else
    "Node(".toList ++ p.node.kind.label ++ ", ".toList ++
      Text.quoted ((p.node.textIn p.scope).take 20) ++ ")".toList

/-! ## Lemmas -/

mutual

theorem isPrefixOf_of_mem_elementsBelow (path : List Nat) (scope : Scope) :
    (n : Node) → ∀ q ∈ elementsBelow path scope n, path <+: q.path
  | .element name attrs cs => by
    intro q hq
    exact isPrefixOf_of_mem_elementsAmong path (name :: scope) 0 cs q hq
  | .text _ => by simp [elementsBelow]
  | .comment _ => by simp [elementsBelow]
  | .directive _ _ => by simp [elementsBelow]

theorem isPrefixOf_of_mem_elementsAmong (path : List Nat) (scope : Scope) (i : Nat) :
    (ns : List Node) → ∀ q ∈ elementsAmong path scope i ns, path <+: q.path
  | [] => by simp [elementsAmong]
  | n :: ns => by
    intro q hq
    simp only [elementsAmong, List.mem_append] at hq
    rcases hq with (hq | hq) | hq
    · split at hq
      · simp only [List.mem_singleton] at hq
        subst hq
        exact List.prefix_append path [i]
      · simp at hq
    · exact List.IsPrefix.trans (List.prefix_append path [i])
        (isPrefixOf_of_mem_elementsBelow (path ++ [i]) scope n q hq)
    · exact isPrefixOf_of_mem_elementsAmong path scope (i + 1) ns q hq

end

theorem contains_of_mem_descendants {p q : Place} (h : q ∈ p.descendants) :
    p.contains q = true :=
  List.isPrefixOf_iff_prefix.mpr (isPrefixOf_of_mem_elementsBelow p.path p.scope p.node q h)

end Place

end Hypermark
