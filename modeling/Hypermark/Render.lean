import Hypermark.Figure
import Hypermark.Inline.Render
import Hypermark.Markdown.Block
import Hypermark.Markdown.ListItem
import Hypermark.Options.Record
import Hypermark.Table.Render

/-!
Rendering of document trees as Markdown.

A tree is walked once.  Siblings that flow in a line are gathered into runs; everything else is a
block, rendered by what its role asks for.  What belongs to one kind of block only stands in its own
module; this one holds the recursion.

* `blocks_nil`, `blocks_text`: text is kept for the run that it belongs to.
-/

namespace Hypermark

/-- The code of a preformatted element, without a line feed at its start and without white space at
its end. -/
def Place.code (pre : Place) : Text :=
  let text := Text.unifyBreaks ((pre.findTag? Figure.codeTag).getD pre).text
  Text.trimEnd (if text.head? == some '\n' then text.tail else text)

namespace Render

/-! ## Parts without recursion -/

/-- The backticks of a fence are counted before the block around the code is written. -/
def fence (opts : Options) (code : Text) : Traced Unit :=
  Traced.ofSized (repeated (Markdown.fenceLength opts.minFence code) ())

/-- A preformatted block as fenced code. -/
def fencedCode (opts : Options) (pre : Place) : Traced Text :=
  let language :=
    if opts.detectLanguage then
      Language.detect (((pre.findTag? Figure.codeTag).toList ++ [pre]).map (·.node))
    else Traced.pure []
  (fence opts pre.code).bind fun _ =>
    language.bind fun info => Traced.pure (Markdown.fencedBlock opts.minFence info pre.code)

/-- The lines of a definition list, in order; meanings before the first term are left out. -/
def definitions (scope : Scope) (started : Bool) :
    List Node → List (Traced Markdown.Definition)
  | [] => []
  | n :: ns =>
    match n with
    | .element name _ cs =>
      if Text.lower name = "dt".toList then
        (Inline.render (name :: scope) cs).bind (Traced.pure ∘ .term) ::
          definitions scope true ns
      else if Text.lower name = "dd".toList && started then
        (Inline.render (name :: scope) cs).bind (Traced.pure ∘ .meaning) ::
          definitions scope started ns
      else definitions scope started ns
    | _ => definitions scope started ns

/-- The number of the first item, none for a list of bullets. -/
def firstNumber (ordered : Bool) (list : Node) : Except Oversize (Option Int) :=
  if ordered then
    (Table.readOptional (list.attribute? "start".toList)).map fun n => some (n.getD 1)
  else .ok none

/-- The number of an item: its own, or the one that is due. -/
def itemNumber (due : Option Int) (item : Node) : Except Oversize (Option Int) :=
  match due with
  | none => .ok none
  | some k => (Table.readOptional (item.attribute? "value".toList)).map fun n => some (n.getD k)

def itemMarker (depth : Nat) (number : Option Int) : Except Oversize Text :=
  match number with
  | none => .ok (Markdown.bulletMarker depth)
  | some k => (Text.writeInteger k).map (Markdown.numberMarker depth)

/-- A run of inline siblings as at most one part. -/
def run (scope : Scope) (nodes : List Node) : Traced (List Text) :=
  (Inline.render scope nodes).bind fun t => Traced.pure (if t.isEmpty then [] else [t])

/-- A run of inline children as at most one segment. -/
def runSegment (scope : Scope) (nodes : List Node) : List Segment :=
  if nodes.isEmpty then [] else [⟨.inline, nodes, Inline.render scope nodes⟩]

/-- A block that is not blank as a part. -/
def part (t : Text) : List Text := if Text.allBlank t then [] else [t]

/-- The node shows in a run: a text, or an element that is not ignored. -/
def isShown (n : Node) : Bool := n.isText || (n.isElement && n.role != .ignored)

def isCell (n : Node) : Bool := n.tag == "td".toList || n.tag == "th".toList

/-- A row heads the table if it stands in a `thead` or has header cells only. -/
def isHeaderRow (scope : Scope) (children : List Node) : Bool :=
  scope.any (fun name => Text.lower name == "thead".toList) ||
    (children.filter isCell).all fun n => n.tag == "th".toList

/-- The caption of a table. -/
def caption (table : Place) : Traced Text :=
  match table.findTag? "caption".toList with
  | some c => (Inline.render c.innerScope c.node.children).bind (Traced.pure ∘ Text.trim)
  | none => Traced.pure []

/-- The caption of a code figure, for the opening line of the fence. -/
def figureCaption (parts : Figure.Parts) : Traced Text :=
  match parts.caption with
  | some c => (Inline.render c.innerScope c.node.children).bind (Traced.pure ∘ Text.collapseSpaces)
  | none => Traced.pure []

/-- A code figure as fenced code between what stands before and after the code. -/
def codeFigure (opts : Options) (figure : Place) (parts : Figure.Parts)
    (before after : Traced (List Text)) : Traced Text :=
  (figureCaption parts).bind fun caption =>
    (if opts.detectLanguage then Figure.detectLanguage figure else Traced.pure []).bind
      fun language =>
        let info := Figure.Parts.info language caption
        (fence opts parts.code).bind fun _ =>
          (Traced.note (.codeFigure parts.lines.length info)).bind fun _ =>
            before.bind fun before =>
              after.bind fun after =>
                Traced.pure <| Text.joinBlocks <|
                  part (Text.joinBlocks before) ++
                    [Markdown.fencedBlock opts.minFence info parts.code] ++
                    part (Text.joinBlocks after)

/-! ## The recursion -/

mutual

/-- One node as a block. -/
def block (opts : Options) (scope : Scope) : Node → Traced Text
  | .element name attrs cs =>
    let n := Node.element name attrs cs
    let place : Place := ⟨[], scope, n⟩
    match n.role with
    | .table =>
      if (place.findTag? "table".toList).isSome then
        (Traced.note .tableNested).bind fun _ => Traced.pure n.outerMarkup
      else Table.render (rowsAmong opts (name :: scope) cs) (caption place)
    | .thematicBreak => Traced.pure Markdown.thematicBreak
    | .heading level =>
      (Inline.render (name :: scope) cs).bind (Traced.pure ∘ Markdown.heading level)
    | .quote =>
      if cs.any Node.isBlock then
        (blocks opts (name :: scope) (fun _ => true) [] cs).bind
          (Traced.pure ∘ Markdown.quote ∘ Text.joinBlocks)
      else (Inline.render (name :: scope) cs).bind (Traced.pure ∘ Markdown.quote)
    | .preformatted => fencedCode opts place
    | .list ordered =>
      (Traced.ofSized (firstNumber ordered n)).bind fun first =>
        (items opts (name :: scope) 0 first cs).bind (Traced.pure ∘ Text.unlines)
    | .definitions =>
      (Traced.sequence (definitions (name :: scope) false cs)).bind
        (Traced.pure ∘ Markdown.definitionList)
    | .figure =>
      match Figure.parts? place with
      | some parts =>
        codeFigure opts place parts (blocks opts (name :: scope) parts.isBefore [] cs)
          (blocks opts (name :: scope) parts.isAfter [] cs)
      | none =>
        (blocks opts (name :: scope) (fun _ => true) [] cs).bind fun parts =>
          if Text.allBlank (Text.joinBlocks parts) then Inline.render (name :: scope) cs
          else Traced.pure (Text.joinBlocks parts)
    | .container =>
      (blocks opts (name :: scope) (fun _ => true) [] cs).bind fun parts =>
        if Text.allBlank (Text.joinBlocks parts) then Inline.render (name :: scope) cs
        else Traced.pure (Text.joinBlocks parts)
    | _ => Inline.render (name :: scope) cs
  | .text _ => Traced.pure []
  | .comment _ => Traced.pure []
  | .directive _ _ => Traced.pure []

/-- The parts of those siblings whose position `keep` admits, after the inline nodes `pending`. -/
def blocks (opts : Options) (scope : Scope) (keep : Nat → Bool) (pending : List Node) :
    List Node → Traced (List Text)
  | [] => run scope pending
  | n :: ns =>
    if !keep 0 then blocks opts scope (fun i => keep (i + 1)) pending ns
    else if n.isBlock then
      (run scope pending).bind fun before =>
        (block opts scope n).bind fun t =>
          (blocks opts scope (fun i => keep (i + 1)) [] ns).bind fun rest =>
            Traced.pure (before ++ part t ++ rest)
    else if isShown n then blocks opts scope (fun i => keep (i + 1)) (pending ++ [n]) ns
    else blocks opts scope (fun i => keep (i + 1)) pending ns

/-- The items of a list at a depth, `due` being the number that the next one takes. -/
def items (opts : Options) (scope : Scope) (depth : Nat) (due : Option Int) :
    List Node → Traced (List Text)
  | [] => Traced.pure []
  | n :: ns =>
    match n with
    | .element name attrs cs =>
      if Text.lower name = "li".toList then
        (Traced.ofSized (itemNumber due (.element name attrs cs))).bind fun number =>
          (Traced.ofSized (itemMarker depth number)).bind fun marker =>
            (Markdown.renderItem depth marker (segments opts (name :: scope) depth [] cs)).bind
              fun item =>
                (items opts scope depth (number.map (· + 1)) ns).bind fun rest =>
                  Traced.pure (item :: rest)
      else items opts scope depth due ns
    | _ => items opts scope depth due ns

/-- The segments of an item of a list at a depth, after the inline children `pending`. -/
def segments (opts : Options) (scope : Scope) (depth : Nat) (pending : List Node) :
    List Node → List Segment
  | [] => runSegment scope pending
  | n :: ns =>
    match n with
    | .element name attrs cs =>
      match Role.ofTag (Text.lower name) with
      | .list ordered =>
        runSegment scope pending ++
          ⟨.nestedList, [.element name attrs cs],
            (Traced.ofSized (firstNumber ordered (.element name attrs cs))).bind fun first =>
              (items opts (name :: scope) (depth + 1) first cs).bind
                (Traced.pure ∘ Text.unlines)⟩ ::
            segments opts scope depth [] ns
      | role =>
        if role.isBlock then
          runSegment scope pending ++
            ⟨.block, [.element name attrs cs], block opts scope (.element name attrs cs)⟩ ::
              segments opts scope depth [] ns
        else segments opts scope depth (pending ++ [.element name attrs cs]) ns
    | _ => segments opts scope depth (pending ++ [n]) ns

/-- The rows at or below a node. -/
def rowsOf (opts : Options) (scope : Scope) : Node → List (Row Cell)
  | .element name _ cs =>
    (if Text.lower name = "tr".toList && cs.any isCell then
        [⟨isHeaderRow scope cs, cellsAmong opts (name :: scope) cs⟩]
      else []) ++ rowsAmong opts (name :: scope) cs
  | _ => []

/-- The rows at or below siblings, in document order. -/
def rowsAmong (opts : Options) (scope : Scope) : List Node → List (Row Cell)
  | [] => []
  | n :: ns => rowsOf opts scope n ++ rowsAmong opts scope ns

/-- The cells among the children of a row. -/
def cellsAmong (opts : Options) (scope : Scope) : List Node → List Cell
  | [] => []
  | n :: ns =>
    match n with
    | .element name attrs cs =>
      if isCell n then
        ⟨(Node.element name attrs cs).attribute? "colspan".toList,
          (Node.element name attrs cs).attribute? "rowspan".toList,
          (blocks opts (name :: scope) (fun _ => true) [] cs).bind fun parts =>
            if Text.allBlank (Text.joinBlocks parts) then Inline.render (name :: scope) cs
            else Traced.pure (Text.trim (Text.joinBlocks parts))⟩ ::
          cellsAmong opts scope ns
      else cellsAmong opts scope ns
    | _ => cellsAmong opts scope ns

end

/-! ## Entry points -/

/-- Siblings as Markdown, a blank line between each two blocks. -/
def siblings (opts : Options) (scope : Scope) (nodes : List Node) : Traced Text :=
  (blocks opts scope (fun _ => true) [] nodes).bind (Traced.pure ∘ Text.joinBlocks)

/-- The children of an element as a list at a depth. -/
def list (opts : Options) (scope : Scope) (depth : Nat) (n : Node) : Traced Text :=
  match n with
  | .element name _ cs =>
    (Traced.ofSized (firstNumber (n.tag == "ol".toList) n)).bind fun first =>
      (items opts (name :: scope) depth first cs).bind (Traced.pure ∘ Text.unlines)
  | _ => Traced.pure []

/-- The content of a table cell. -/
def cell (opts : Options) (scope : Scope) (nodes : List Node) : Traced Text :=
  (siblings opts scope nodes).bind fun t =>
    if Text.allBlank t then Inline.render scope nodes else Traced.pure (Text.trim t)

/-- The segments of a list item in a list at a depth. -/
def itemSegments (opts : Options) (scope : Scope) (depth : Nat) (item : Node) : List Segment :=
  segments opts scope depth [] item.children

/-- A figure as fenced code, if it holds code. -/
def figure? (opts : Options) (scope : Scope) (n : Node) : Option (Traced Text) :=
  let place : Place := ⟨[], scope, n⟩
  (Figure.parts? place).map fun parts =>
    codeFigure opts place parts (blocks opts place.innerScope parts.isBefore [] n.children)
      (blocks opts place.innerScope parts.isAfter [] n.children)

/-- The rows below a table, each cell with its value and its extent. -/
def spannedRows (opts : Options) (table : Place) : Traced (List (Row Table.Spanned)) :=
  Traced.sequence ((rowsAmong opts table.innerScope table.node.children).map Table.spannedRow)

/-- The rows below a table and their cells, as places. -/
def rowPlaces (table : Place) : List (Row Place) :=
  (table.findAll fun row => row.tag == "tr".toList && row.node.children.any isCell).map fun row =>
    ⟨isHeaderRow row.scope row.node.children, row.children.filter fun c => isCell c.node⟩

/-! ## Lemmas -/

theorem blocks_nil (opts : Options) (scope : Scope) (keep : Nat → Bool) (pending : List Node) :
    blocks opts scope keep pending [] = run scope pending := by rw [blocks]

theorem blocks_text (opts : Options) (scope : Scope) (pending : List Node) (t : Text)
    (ns : List Node) :
    blocks opts scope (fun _ => true) pending (.text t :: ns) =
      blocks opts scope (fun _ => true) (pending ++ [.text t]) ns := by rw [blocks]; rfl

end Render

end Hypermark
