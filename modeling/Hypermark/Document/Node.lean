import Hypermark.Text.Case

/-!
Document trees.

A tree has elements, texts, comments and directives; the last two never show.  Names keep the case
they were written in, and every decision is taken on the tag, the name in lower case.

A node does not know what encloses it.  Where that matters it is given as a `Scope`, the names of
the enclosing elements: a text inside `script`, `style`, `template`, `rt` or `rp` belongs to the
nearest such element and counts as text of that kind of element only.

* `ownedTexts_append`: the text of siblings is the text of each in turn.
-/

namespace Hypermark

/-- Markup that is neither element nor text nor comment. -/
inductive Directive where
  | cdata
  | doctype
  | instruction
  | declaration
deriving DecidableEq, Repr

/-- Attributes as written: a value may be absent and a name may occur twice. -/
abbrev Attributes := List (Text × Option Text)

inductive Node where
  | text (content : Text)
  | element (name : Text) (attributes : Attributes) (children : List Node)
  | comment (content : Text)
  | directive (kind : Directive) (content : Text)
deriving Repr

/-- The names of the enclosing elements, the nearest first. -/
abbrev Scope := List Text

namespace Node

def isElement : Node → Bool
  | element .. => true
  | _ => false

def isText : Node → Bool
  | text _ => true
  | _ => false

/-- The name of an element in lower case, empty for any other node. -/
def tag : Node → Text
  | element name _ _ => Text.lower name
  | _ => []

def children : Node → List Node
  | element _ _ cs => cs
  | _ => []

/-! ## Text -/

/-- Elements that keep the texts inside them to themselves. -/
def ownsText (name : Text) : Bool :=
  ["script".toList, "style".toList, "template".toList, "rt".toList, "rp".toList].contains name

end Node

/-- The element that owns the texts in a scope, if one does. -/
def Scope.owner (scope : Scope) : Option Text := scope.find? Node.ownsText

namespace Node

/-- The owner of the texts directly inside an element, `outer` owning those around it. -/
def ownerInside (name : Text) (outer : Option Text) : Option Text :=
  if ownsText name then some name else outer

mutual

/-- The texts of a tree that belong to `wanted`, while `owner` owns those at its top. -/
def ownedText (wanted owner : Option Text) : Node → Text
  | text t => if owner = wanted then t else []
  | element name _ cs => ownedTexts wanted (ownerInside name owner) cs
  | comment _ => []
  | directive .cdata t => if wanted = none then t else []
  | directive _ _ => []

def ownedTexts (wanted owner : Option Text) : List Node → Text
  | [] => []
  | n :: ns => ownedText wanted owner n ++ ownedTexts wanted owner ns

end

/-- The text of a node that stands in `scope`. -/
def textIn (scope : Scope) : Node → Text
  | text t => t
  | comment t => t
  | directive _ t => t
  | element name _ cs =>
    ownedTexts (ownerInside name none) (ownerInside name (Scope.owner scope)) cs

/-! ## Kinds -/

inductive Kind where
  | element
  | text
  | comment
  | other
deriving DecidableEq, Repr

def kind : Node → Kind
  | .element .. => .element
  | .text _ => .text
  | .comment _ => .comment
  | .directive .. => .other

/-- The name of a kind of node. -/
def Kind.label : Kind → Text
  | .element => "element".toList
  | .text => "text".toList
  | .comment => "comment".toList
  | .other => "other".toList

/-! ## Lemmas -/

theorem ownedTexts_append (wanted owner : Option Text) (xs ys : List Node) :
    ownedTexts wanted owner (xs ++ ys) =
      ownedTexts wanted owner xs ++ ownedTexts wanted owner ys := by
  induction xs with
  | nil => rfl
  | cons x xs ih => simp [ownedTexts, ih]

end Node

end Hypermark
