import Hypermark.Document.Node
import Hypermark.Text.Lines
import Hypermark.Traced

/-!
List items as text.

The content of an item comes in segments: runs of inline nodes, blocks, and nested lists.  The text
on the line of the marker is the first run that is not empty, or a leading block of one line; all
else follows on lines of its own, indented.

* `leading_of_nestedList`: a nested list never goes on the marker line.
-/

namespace Hypermark

/-- What a segment of a list item is. -/
inductive SegmentKind where
  | inline
  | block
  | nestedList
deriving DecidableEq, Repr

/-- Children of a list item that are rendered together. -/
structure Segment where
  kind : SegmentKind
  nodes : List Node
  rendering : Traced Text

/-- The positions of the nodes of each segment, the first segment starting at `i`. -/
def Segment.positionsFrom (i : Nat) : List Segment → List (List Nat)
  | [] => []
  | s :: rest => List.range' i s.nodes.length :: positionsFrom (i + s.nodes.length) rest

/-- The text of the marker line, and what comes below it: a block that turned out too long for that
line, and the segments not rendered yet. -/
structure Leading where
  text : Text
  held : Option Text
  rest : List Segment

namespace Markdown

/-! ## The marker line -/

/-- Finds the text of the marker line: empty runs are passed over, and a block counts only if it is
a single line. -/
def leading : List Segment → Traced Leading
  | [] => Traced.pure ⟨[], none, []⟩
  | s :: rest =>
    match s.kind with
    | .nestedList => Traced.pure ⟨[], none, s :: rest⟩
    | .inline => s.rendering.bind fun t =>
      if t.isEmpty then leading rest else Traced.pure ⟨t, none, rest⟩
    | .block => s.rendering.bind fun t =>
      if t.contains '\n' then Traced.pure ⟨[], some t, rest⟩
      else Traced.pure ⟨Text.trim t, none, rest⟩

/-- The indentation of a list at a depth. -/
def indent (depth : Nat) : Text := List.replicate (2 * depth) ' '

/-- The line of the marker; further lines of its text start under the text. -/
def markerLine (marker text : Text) : Text :=
  if text.isEmpty then Text.trimEnd marker
  else
    marker ++ text.flatMap fun c =>
      if c = '\n' then '\n' :: List.replicate marker.length ' ' else [c]

/-! ## Below the marker line -/

def indentLine (depth : Nat) (line : Text) : Text :=
  if Text.allBlank line then [] else indent (depth + 1) ++ line

/-- The lines of a segment in a list at `depth`; a nested list is indented already. -/
def segmentLines (depth : Nat) (kind : SegmentKind) (t : Text) : List Text :=
  match kind with
  | .nestedList => if t.isEmpty then [] else Text.lines t
  | _ => if Text.allBlank t then [] else (Text.lines t).map (indentLine depth)

/-- A blank line comes before a segment, except before a nested list at the top of the item or after
another one. -/
def needsBlank (previous : Option SegmentKind) (kind : SegmentKind) : Bool :=
  kind != .nestedList || previous == some .block || previous == some .inline

/-- The lines of an item with its segments added to the lines above them. -/
def addSegments (depth : Nat) (above : List Text) (previous : Option SegmentKind) :
    List (SegmentKind × Text) → List Text
  | [] => above
  | (kind, t) :: rest =>
    match segmentLines depth kind t with
    | [] => addSegments depth above previous rest
    | ls =>
      let gap := needsBlank previous kind && above.getLast?.any (!·.isEmpty)
      addSegments depth (above ++ (if gap then [[]] else []) ++ ls) (some kind) rest

/-- An item with its marker, the text on the marker line and the segments below. -/
def itemText (depth : Nat) (marker text : Text) (below : List (SegmentKind × Text)) : Text :=
  Text.unlines (addSegments depth [markerLine marker text] none below)

/-- Renders an item from its segments, each of them once and in order. -/
def renderItem (depth : Nat) (marker : Text) (segments : List Segment) : Traced Text :=
  (leading segments).bind fun first =>
    (Traced.sequence (first.rest.map (·.rendering))).bind fun texts =>
      let held := first.held.toList.map (SegmentKind.block, ·)
      Traced.pure
        (itemText depth marker first.text (held ++ (first.rest.map (·.kind)).zip texts))

/-! ## Markers -/

def bulletMarker (depth : Nat) : Text := indent depth ++ "- ".toList

def numberMarker (depth : Nat) (number : Text) : Text := indent depth ++ number ++ ". ".toList

/-! ## Lemmas -/

theorem leading_of_nestedList {s : Segment} (h : s.kind = .nestedList) (rest : List Segment) :
    leading (s :: rest) = Traced.pure ⟨[], none, s :: rest⟩ := by
  rw [leading, h]

end Markdown

end Hypermark
