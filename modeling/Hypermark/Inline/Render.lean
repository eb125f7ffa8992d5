import Hypermark.Document.Role
import Hypermark.Document.Attributes
import Hypermark.Inline.Fragment
import Hypermark.Link
import Hypermark.Markdown.Code
import Hypermark.Traced

/-!
Rendering of a run of text and inline elements into one line.

Every element adds its fragments to the buffer of its parent.  A link with an unsafe destination
adds nothing; it also takes away a separator before it, which may lie anywhere at the end of the
buffer, and a separator text right after it.

Nothing here can fail, so what is noted about dropped links and images is a function of its own.

* `addNodes_cons`: a node is added after those before it, and tells whether it was dropped.
-/

namespace Hypermark.Inline

/-! ## Links and images -/

def hrefOf (n : Node) : Text := Text.trim (n.attributeOrEmpty "href".toList)

def sourceOf (n : Node) : Text := Text.trim (n.attributeOrEmpty "src".toList)

def linkMarkup (label href : Text) : Text :=
  '[' :: label ++ "](".toList ++ Markdown.formatDestination href ++ [')']

def titlePart (title : Text) : Text :=
  if title.isEmpty then [] else " \"".toList ++ Markdown.escapeTitle title ++ ['"']

/-- The label of an image: its `alt` text on one line. -/
def altLabel (n : Node) : Text :=
  Markdown.escapeLabel (Text.trim (Text.collapseSpaces (n.attributeOrEmpty "alt".toList)))

/-- An image; nothing if it has no source or an unsafe one. -/
def imageMarkup (n : Node) : Text :=
  let source := sourceOf n
  if source.isEmpty || !Link.isSafe source then []
  else
    "![".toList ++ altLabel n ++ "](".toList ++ Markdown.formatDestination source ++
      titlePart (n.attributeOrEmpty "title".toList) ++ [')']

def strongMark : Text := ['*', '*']

def emphasisMark : Text := ['*']

/-! ## Nodes -/

/-- A text that only separates its neighbours. -/
def isSeparator : Node → Bool
  | .text t => Link.isBareSeparator t
  | _ => false

/-- Adds the label of a link without destination. -/
def addAnchor (b label : Buffer) : Buffer :=
  let fragments := Buffer.collapsed label
  if fragments.isEmpty then b.addStandIn label else b.addSurrounded label fragments

/-- Adds a link to a safe destination. -/
def addLink (b label : Buffer) (href : Text) : Buffer :=
  b.addSurrounded label [.markup (linkMarkup (label.collapseWith Markdown.escapeLabel) href)]

mutual

/-- The buffer with a node added, and whether the node was a link dropped as unsafe. -/
def addNode (scope : Scope) : Node → Buffer → Buffer × Bool
  | .text t, b => (b.addText (Markdown.escapeAngles t), false)
  | .element name attrs cs, b =>
    let n := Node.element name attrs cs
    match n.role with
    | .ignored => (b, false)
    | .link =>
      if (hrefOf n).isEmpty then (addAnchor b (addNodes (name :: scope) false cs []), false)
      else if Link.isSafe (hrefOf n) then
        (addLink b (addNodes (name :: scope) false cs []) (hrefOf n), false)
      else (b.prune, true)
    | .lineBreak => (b.addBreak, false)
    | .image => (b.addMarkup (imageMarkup n), false)
    | .strong => (b.addWrapped (addNodes (name :: scope) false cs []) strongMark, false)
    | .emphasis => (b.addWrapped (addNodes (name :: scope) false cs []) emphasisMark, false)
    | .code => (b.addMarkup (Markdown.codeSpan (n.textIn scope)), false)
    | _ => (addNodes (name :: scope) false cs b, false)
  | .comment _, b => (b, false)
  | .directive _ _, b => (b, false)

/-- The buffer with siblings added; `dropped` says that a link was dropped right before them. -/
def addNodes (scope : Scope) (dropped : Bool) : List Node → Buffer → Buffer
  | [], b => b
  | n :: ns, b =>
    if dropped && isSeparator n then addNodes scope false ns b
    else
      let added := addNode scope n b
      addNodes scope added.2 ns added.1

end

/-- The uncollapsed output of siblings. -/
def buffer (scope : Scope) (nodes : List Node) : Buffer := addNodes scope false nodes []

/-- Siblings as one collapsed text. -/
def collapse (scope : Scope) (nodes : List Node) : Text := (buffer scope nodes).collapse

/-! ## Notices -/

mutual

/-- What is noted while a node is added. -/
def notices : Node → List Notice
  | .text _ => []
  | .element name attrs cs =>
    let n := Node.element name attrs cs
    match n.role with
    | .ignored | .lineBreak | .code => []
    | .link =>
      if !(hrefOf n).isEmpty && !Link.isSafe (hrefOf n) then [.linkDropped (hrefOf n)]
      else noticesAll cs
    | .image =>
      if !(sourceOf n).isEmpty && !Link.isSafe (sourceOf n) then [.imageDropped (sourceOf n)]
      else []
    | _ => noticesAll cs
  | .comment _ => []
  | .directive _ _ => []

def noticesAll : List Node → List Notice
  | [] => []
  | n :: ns => notices n ++ noticesAll ns

end

/-- Siblings as one collapsed text, with what was noted. -/
def render (scope : Scope) (nodes : List Node) : Traced Text :=
  ⟨noticesAll nodes, .ok (collapse scope nodes)⟩

/-! ## Lemmas -/

theorem addNodes_nil (scope : Scope) (dropped : Bool) (b : Buffer) :
    addNodes scope dropped [] b = b := by rw [addNodes]

theorem addNodes_cons (scope : Scope) (n : Node) (ns : List Node) (b : Buffer) :
    addNodes scope false (n :: ns) b =
      addNodes scope (addNode scope n b).2 ns (addNode scope n b).1 := by
  rw [addNodes]; rfl

end Hypermark.Inline
