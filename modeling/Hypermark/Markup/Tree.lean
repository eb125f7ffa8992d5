import Hypermark.Markup.Token

/-!
From tokens to a document tree.

A start tag opens an element inside the current one, and no element is ever implied.  An end tag
closes everything up to the nearest open element of its name, or nothing if there is none.  A void
element and one whose tag ends in `/>` are closed at once.  After a void element whose tag does not
end so, the next end tag of its name is taken for its own and passed over.
-/

namespace Hypermark.Markup

/-- An open element with its finished children, the last one first. -/
structure Frame where
  name : Text
  attributes : Attributes
  children : List Node

def Frame.node (f : Frame) : Node := .element f.name f.attributes f.children.reverse

/-- A tree under construction. -/
structure Builder where
  /-- The finished top-level nodes, the last one first. -/
  top : List Node
  /-- The open elements, the innermost first. -/
  frames : List Frame
  /-- Pieces of character data that are not a text node yet, the last one first. -/
  pending : List Text
  /-- Names of void elements whose own end tag may still come. -/
  crossed : List Text

namespace Builder

def empty : Builder := ⟨[], [], [], []⟩

/-! ## Texts -/

def isAsciiBlank (c : Char) : Bool :=
  c == ' ' || c == '\n' || c == '\t' || c == '\x0c' || c == '\r'

/-- Inside these elements white space is kept. -/
def keepsSpace (name : Text) : Bool := name == "pre".toList || name == "textarea".toList

/-- Content as it enters the tree: white space alone shrinks to one character. -/
def settle (b : Builder) (t : Text) : Text :=
  if t.all isAsciiBlank && !b.frames.any (fun f => keepsSpace f.name) then
    if t.contains '\n' then ['\n'] else [' ']
  else t

/-- Adds a node to the innermost open element. -/
def add (b : Builder) (n : Node) : Builder :=
  match b.frames with
  | [] => { b with top := n :: b.top }
  | f :: rest => { b with frames := { f with children := n :: f.children } :: rest }

/-- Makes a text node of the character data that came last. -/
def flush (b : Builder) : Builder :=
  let data := b.pending.reverse.flatten
  if data.isEmpty then b else { b.add (.text (b.settle data)) with pending := [] }

/-! ## Elements -/

/-- Closes the innermost element. -/
def close (b : Builder) : Builder :=
  match b.frames with
  | [] => b
  | f :: rest => { b with frames := rest }.add f.node

/-- Closes the `n` innermost elements. -/
def closeMany (b : Builder) : Nat → Builder
  | 0 => b
  | n + 1 => b.close.closeMany n

/-- Closes everything up to the nearest element of a name. -/
def closeTo (b : Builder) (name : Text) : Builder :=
  match b.frames.findIdx? fun f => f.name == name with
  | some i => b.closeMany (i + 1)
  | none => b

/-- An end tag; it is passed over if a void element of its name still waits for one. -/
def endTag (b : Builder) (name : Text) : Builder :=
  if b.crossed.contains name then { b with crossed := b.crossed.erase name }
  else b.flush.closeTo name

/-- A start tag.  One that ends in `/>` makes an element without content, and no end tag is expected
for it; one of a void element does so too, but an end tag of its own may follow. -/
def startTag (b : Builder) (tag : StartTag) : Builder :=
  let b := b.flush
  let opened := { b with frames := ⟨tag.name, tag.attributes, []⟩ :: b.frames }
  if tag.closed then opened.close
  else if Node.isVoid tag.name then { opened.close with crossed := tag.name :: opened.crossed }
  else opened

/-! ## Tokens -/

def token (b : Builder) : Token → Builder
  | .data t => { b with pending := t :: b.pending }
  | .startTag tag => b.startTag tag
  | .endTag name => b.endTag name
  | .comment t => let b := b.flush; b.add (.comment (b.settle t))
  | .directive kind t => let b := b.flush; b.add (.directive kind (b.settle t))

/-- The top-level nodes once everything is closed. -/
def finish (b : Builder) : List Node :=
  let b := b.flush
  (b.closeMany b.frames.length).top.reverse

end Builder

/-- The tree of a sequence of tokens. -/
def build (tokens : List Token) : List Node := (tokens.foldl Builder.token .empty).finish

/-- The nodes of a document given as markup. -/
def parse (markup : Text) : Except Fault (List Node) := (tokens markup).map build

end Hypermark.Markup
