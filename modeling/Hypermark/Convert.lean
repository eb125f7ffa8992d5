import Hypermark.Document.Place
import Hypermark.Markdown.Normal
import Hypermark.Markup.Tree
import Hypermark.Render

/-!
Conversion of documents to Markdown.

* `convertTree` renders a tree and brings the result into its normal form.
* `Plugins.convert` reads the tree from markup first, with the parsers that are installed; a blank
  text is not read at all.
* `convert` does so with the built-in parser alone.
* `convert_of_allBlank`: a blank text gives an empty document, whatever the parser.
-/

namespace Hypermark

/-- A tree as a Markdown document. -/
def convertTree (opts : Options) (nodes : List Node) : Traced Text :=
  (Render.siblings opts [Place.documentTag] nodes).bind
    (Traced.pure ∘ Markdown.normalize opts.maxBlankLines)

/-- What is installed beside the built-in parser: for a parser, how it reads or refuses a text. -/
def Plugins : Type := Parser → Option (Text → Except Text (List Node))

namespace Plugins

/-- Nothing is installed. -/
def none : Plugins := fun _ => Option.none

/-- The tree that a parser reads. -/
def parse (plugins : Plugins) (parser : Parser) (text : Text) : Except Fault (List Node) :=
  match parser with
  | .builtin => Markup.parse text
  | _ =>
    match plugins parser with
    | some read => (read text).mapError .refused
    | Option.none => .error (.parserMissing parser.name)

/-- The tree of a text, with the record of its reading. -/
def readDocument (plugins : Plugins) (parser : Parser) (text : Text) : Traced (List Node) :=
  match plugins.parse parser text with
  | .ok nodes => ⟨[.parsed text.length parser.name], .ok nodes⟩
  | .error fault => Traced.fail fault

/-- A text as a Markdown document. -/
def convert (plugins : Plugins) (opts : Options) (text : Text) : Traced Text :=
  if Text.allBlank text then Traced.pure []
  else (plugins.readDocument opts.parser text).bind (convertTree opts)

end Plugins

/-- The tree of a text, read by a parser; only the built-in one is there. -/
def readDocument (parser : Parser) (text : Text) : Traced (List Node) :=
  Plugins.none.readDocument parser text

/-- The tree of a text, read by the parser of a name or an alias. -/
def readDocumentBy (name text : Text) : Traced (List Node) :=
  match Parser.ofAlias? name with
  | some parser => readDocument parser text
  | none => Traced.fail (.parserNotFound name)

/-- A text as a Markdown document, with nothing but the built-in parser. -/
def convert (opts : Options) (text : Text) : Traced Text := Plugins.none.convert opts text

/-- A value as a Markdown document: no value counts as an empty text, and nothing else but a text is
accepted. -/
def convertValue (opts : Options) (value : Value) : Traced Text :=
  match value with
  | .null => Traced.pure []
  | .text t => convert opts t
  | v => Traced.fail (.notText v)

/-! ## Lemmas -/

theorem convert_of_allBlank (opts : Options) {text : Text} (h : Text.allBlank text = true) :
    convert opts text = Traced.pure [] := by
  simp [convert, Plugins.convert, h]

end Hypermark
