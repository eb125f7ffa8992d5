import Hypermark.Document.Place
import Hypermark.Markdown.Code
import Hypermark.Markdown.Language

/-!
Code figures: a `figure` of class `code` around a highlighted listing.

Such a figure may hold a gutter of line numbers, one element per code line and a caption.  The code
is found first, the language is taken from wherever the figure names it, and the children of the
figure are told apart by where they stand: the caption, the one that holds the code, those before it
and those after it.

* `Parts.not_isBefore_and_isAfter`: no child stands on both sides.
-/

namespace Hypermark.Figure

/-! ## Code -/

def isCode (n : Node) : Bool := n.hasClass "code".toList

def preTag : Text := "pre".toList

def codeTag : Text := "code".toList

/-- The first `pre` inside the first of some places that has one. -/
def preInside? (places : List Place) : Option Place :=
  places.findSome? fun p => p.findTag? preTag

def isMainCell (p : Place) : Bool := p.tag == "td".toList && p.node.hasClass "main".toList

def isGutter (p : Place) : Bool := p.node.hasClass "line-numbers".toList

def isHighlight (p : Place) : Bool :=
  p.tag == "div".toList && p.node.hasClass "highlight".toList

/-- The `pre` with the code: in a main cell, else in a cell that is no gutter, else in a highlighted
block, else anywhere in the figure. -/
def codePre? (figure : Place) : Option Place :=
  let cells := figure.findAll fun p => p.tag == "td".toList
  (preInside? (cells.filter isMainCell)).or <|
    (preInside? (cells.filter (!isGutter ·))).or <|
      (preInside? (figure.findAll isHighlight)).or <| figure.findTag? preTag

/-- The text of a line element: no line breaks, plain spaces, nothing blank at its end. -/
def lineText (p : Place) : Text :=
  Text.trimEnd ((p.text.filter fun c => c != '\r' && c != '\n').map fun c =>
    if c = '\u00a0' then ' ' else c)

/-- The lines without the blank ones at both ends. -/
def trimLines (ls : List Text) : List Text :=
  ((ls.dropWhile Text.allBlank).reverse.dropWhile Text.allBlank).reverse

/-- The code lines of a `pre`: its line elements if it has any, else the lines of its text. -/
def codeLines (pre : Place) : List Text :=
  let lineElements := pre.findAll fun p => p.node.hasClass "line".toList
  trimLines <|
    if lineElements.isEmpty then
      Text.lines (Text.unifyBreaks ((pre.findTag? codeTag).getD pre).text)
    else lineElements.map lineText

/-! ## Language -/

/-- Class tokens that say nothing about the language. -/
def genericClasses : List Text :=
  ["highlight", "code", "main", "gutter", "numbers", "line-numbers", "line-number", "line", "wrap",
    "table"].map String.toList

def languageAttributes : List Text :=
  ["data-language".toList, "data-lang".toList, "lang".toList]

/-- The language that a class token names in a figure: any token will do that is not generic. -/
def ofClass? (token : Text) : Option Text :=
  match Language.ofClass? token with
  | some language => some language
  | none => if genericClasses.contains (Text.lower token) then none else some token

/-- The language that one element of a figure names. -/
def languageOf? (n : Node) : Option Text :=
  (Language.ofAttributes? n languageAttributes).or (n.classes.findSome? ofClass?)

/-- The elements that may name the language, the likely ones first. -/
def languageSources (figure : Place) : List Place :=
  (figure.findTag? codeTag).toList ++ (figure.findTag? preTag).toList ++
    (figure.find? isMainCell).toList ++ (figure.find? isHighlight).toList ++ [figure] ++
    figure.findAll fun p =>
      (languageAttributes ++ ["class".toList]).any fun name => (p.node.attribute? name).isSome

/-- The language of the code of a figure. -/
def detectLanguage (figure : Place) : Traced Text :=
  match (languageSources figure).findSome? (languageOf? ·.node) with
  | some t => Language.sanitize t
  | none => Traced.pure []

/-! ## Parts -/

def caption? (figure : Place) : Option Place := figure.findTag? "figcaption".toList

/-- A code figure taken apart; the paths start from the figure. -/
structure Parts where
  pre : Place
  lines : List Text
  caption : Option Place

/-- The parts of a figure that holds code. -/
def parts? (figure : Place) : Option Parts :=
  if isCode figure.node then
    match codePre? figure with
    | some pre =>
      if (codeLines pre).isEmpty then none else some ⟨pre, codeLines pre, caption? figure⟩
    | none => none
  else none

namespace Parts

/-- Child `i` of the figure is the caption. -/
def isCaption (p : Parts) (i : Nat) : Bool :=
  match p.caption with
  | some c => c.path == [i]
  | none => false

/-- The child that holds the code; a caption that does is not counted. -/
def holder? (p : Parts) : Option Nat :=
  match p.pre.path with
  | i :: _ => if p.isCaption i then none else some i
  | [] => none

/-- Child `i` stands before the code, as all do where no child holds it. -/
def isBefore (p : Parts) (i : Nat) : Bool :=
  !p.isCaption i && p.holder?.all (i < ·)

/-- Child `i` stands after the code. -/
def isAfter (p : Parts) (i : Nat) : Bool :=
  !p.isCaption i && p.holder?.any (· < i)

/-- What stands on the opening line of the fence. -/
def info (language caption : Text) : Text :=
  [' '].intercalate
    ([language, caption.filter (!Markdown.isBacktick ·)].filter (!·.isEmpty))

def code (p : Parts) : Text := Text.unlines p.lines

end Parts

/-! ## Lemmas -/

theorem Parts.not_isBefore_and_isAfter (p : Parts) (i : Nat) :
    (p.isBefore i && p.isAfter i) = false := by
  unfold Parts.isBefore Parts.isAfter
  cases p.holder? with
  | none => simp
  | some h =>
    by_cases hi : i < h
    · simp [Nat.not_lt.mpr (Nat.le_of_lt hi)]
    · simp [hi]

end Hypermark.Figure
