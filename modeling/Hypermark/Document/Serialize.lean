import Hypermark.Document.Attributes
import Hypermark.Text.Order

/-!
Trees written back as markup.

Attributes come in the order of their names.  Values and texts have `&`, `<` and `>` escaped and
nothing else; a quote matters only for the choice of the quotes around a value.

* `markupAll_append`: siblings are written one after the other.
-/

namespace Hypermark

/-! ## Order -/

/-- Puts an entry before the first one whose name is greater. -/
def Attributes.insertByName (a : Text × Option Text) : Attributes → Attributes
  | [] => [a]
  | b :: rest => if Text.precedes a.1 b.1 then a :: b :: rest else b :: insertByName a rest

def Attributes.sorted (as : Attributes) : Attributes := as.foldr insertByName []

namespace Node

/-! ## Parts -/

/-- Elements that are complete without content. -/
def isVoid (name : Text) : Bool :=
  (["area", "base", "basefont", "bgsound", "br", "col", "command", "embed", "frame", "hr", "image",
    "img", "input", "isindex", "keygen", "link", "menuitem", "meta", "nextid", "param", "source",
    "spacer", "track", "wbr"].map String.toList).contains name

/-- Elements whose texts are not markup and are written as they are. -/
def isRaw (name : Text) : Bool := name == "script".toList || name == "style".toList

def escapeMarkup (t : Text) : Text :=
  t.flatMap fun c =>
    if c = '&' then "&amp;".toList
    else if c = '<' then "&lt;".toList
    else if c = '>' then "&gt;".toList
    else [c]

/-- A value in double quotes, or in single ones if only double quotes occur inside. -/
def quoteValue (v : Text) : Text :=
  if v.contains '"' then
    if v.contains '\x27' then
      '"' :: v.flatMap (fun c => if c = '"' then "&quot;".toList else [c]) ++ ['"']
    else '\x27' :: v ++ ['\x27']
  else '"' :: v ++ ['"']

def attributeMarkup (a : Text × Option Text) : Text :=
  match a.2 with
  | some v => ' ' :: a.1 ++ '=' :: quoteValue (escapeMarkup v)
  | none => ' ' :: a.1

def commentMarkup (t : Text) : Text := "<!--".toList ++ t ++ "-->".toList

def directiveMarkup (kind : Directive) (t : Text) : Text :=
  match kind with
  | .cdata => "<![CDATA[".toList ++ t ++ "]]>".toList
  | .doctype => "<!DOCTYPE ".toList ++ t ++ ">\n".toList
  | .instruction => "<?".toList ++ t ++ ">".toList
  | .declaration => "<?".toList ++ t ++ "?>".toList

/-- The start tag without its closing bracket. -/
def openingMarkup (name : Text) (n : Node) : Text :=
  '<' :: name ++ n.writtenAttributes.sorted.flatMap attributeMarkup

/-! ## Trees -/

mutual

/-- The markup of a node; `raw` says that it stands directly in a raw element. -/
def markup (raw : Bool) : Node → Text
  | text t => if raw then t else escapeMarkup t
  | comment t => commentMarkup t
  | directive kind t => directiveMarkup kind t
  | element name attrs cs =>
    let opening := openingMarkup name (element name attrs cs)
    if cs.isEmpty && isVoid name then opening ++ "/>".toList
    else
      opening ++ ">".toList ++ markupAll (isRaw name) cs ++ "</".toList ++ name ++ ">".toList

def markupAll (raw : Bool) : List Node → Text
  | [] => []
  | n :: ns => markup raw n ++ markupAll raw ns

end

/-- A node on its own: an element as markup, any other node as its plain content. -/
def outerMarkup : Node → Text
  | text t => t
  | comment t => t
  | directive _ t => t
  | element name attrs cs => markup false (element name attrs cs)

/-! ## Lemmas -/

theorem markupAll_append (raw : Bool) (xs ys : List Node) :
    markupAll raw (xs ++ ys) = markupAll raw xs ++ markupAll raw ys := by
  induction xs with
  | nil => rfl
  | cons x xs ih => simp [markupAll, ih]

end Node

end Hypermark
