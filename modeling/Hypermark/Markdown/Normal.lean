import Hypermark.Text.Lines

/-!
The normal form of a Markdown document.

Line breaks are line feeds, no line ends in spaces or tabs, the document neither starts nor ends
with an empty line, and outside fenced code at most a given number of blank lines follow each
other.  Fences are found by reading the lines: three or more backticks or tildes open one, and a
line with nothing but at least as many of the same mark closes it.

* `squeezeFrom_sublist`: squeezing only leaves lines out.
-/

namespace Hypermark.Markdown

/-- An open code fence. -/
structure Fence where
  mark : Char
  length : Nat
deriving DecidableEq, Repr

namespace Fence

def isMark (c : Char) : Bool := c == '\x60' || c == '~'

/-- The fence that a line opens: it starts with three or more marks after white space. -/
def opening? (line : Text) : Option Fence :=
  match Text.trimStart line with
  | [] => none
  | c :: cs =>
    let length := 1 + (cs.takeWhile (· == c)).length
    if isMark c && 3 ≤ length then some ⟨c, length⟩ else none

/-- The line holds only marks, at least as many as the opening line. -/
def closedBy (fence : Fence) (line : Text) : Bool :=
  let inner := Text.trim line
  let run := (inner.takeWhile (· == fence.mark)).length
  inner.head? == some fence.mark && fence.length ≤ run && Text.allBlank (inner.drop run)

/-- The fence that is open after a line. -/
def after (fence : Option Fence) (line : Text) : Option Fence :=
  match fence with
  | some f => if f.closedBy line then none else some f
  | none => opening? line

end Fence

/-! ## Blank lines -/

/-- The lines with runs of more than `most` blank ones cut short outside code; `blanks` of them came
directly before. -/
def squeezeFrom (most : Int) (fence : Option Fence) (blanks : Nat) : List Text → List Text
  | [] => []
  | line :: rest =>
    let next := Fence.after fence line
    if fence.isSome || next.isSome then line :: squeezeFrom most next 0 rest
    else if !Text.allBlank line then line :: squeezeFrom most none 0 rest
    else if (blanks + 1 : Nat) ≤ most then line :: squeezeFrom most none (blanks + 1) rest
    else squeezeFrom most none (blanks + 1) rest

/-- At most `most` blank lines in a row outside fenced code. -/
def squeeze (most : Int) (t : Text) : Text :=
  Text.unlines (squeezeFrom most none 0 (Text.lines t))

/-! ## Documents -/

/-- A line without the spaces and tabs at its end. -/
def trimLine (line : Text) : Text := Text.dropEndWhile (fun c => c == ' ' || c == '\t') line

def isLineFeed (c : Char) : Bool := c == '\n'

/-- The normal form of a document. -/
def normalize (most : Int) (t : Text) : Text :=
  let lines := (Text.lines (Text.unifyBreaks t)).map trimLine
  Text.dropEndWhile isLineFeed ((squeeze most (Text.unlines lines)).dropWhile isLineFeed)

/-! ## Lemmas -/

theorem squeezeFrom_sublist (most : Int) (fence : Option Fence) (blanks : Nat) (ls : List Text) :
    List.Sublist (squeezeFrom most fence blanks ls) ls := by
  induction ls generalizing fence blanks with
  | nil => exact List.Sublist.refl _
  | cons line rest ih =>
    simp only [squeezeFrom]
    repeat' split
    all_goals first
      | exact (ih _ _).cons_cons line
      | exact (ih _ _).cons line

end Hypermark.Markdown
