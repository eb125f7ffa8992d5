import Hypermark.Proofs.Quiet
import Hypermark.Proofs.Recursion

/-!
# Rendering with a stack of open lists

The number of an item can be kept in the list that it belongs to.  Each list is opened with the
number that its first item takes, an item takes its number from the innermost list and leaves the
next one there, and the list is closed again when its items are done or a fault ends them.  The
content of an item is rendered in between, with the same stack, and opens and closes lists of its
own.

`Session` is rendering with such a stack.  It is the renderer in which the place of the numbers is
made explicit; `Follows` says that a computation comes to what a computation without a stack comes
to, and that it gives the stack back as it was.

* `follows_bind`, `follows_sequence`, `follows_item`: how it passes to what is made from parts.
* `counts_item`: an item changes nothing but the number of the list that it is in.
* `follows_openList`: a list is closed again, though its items change its number.
-/

namespace Hypermark

/-- An open list: the number of its next item, which only a numbered list shows. -/
structure ListContext where
  ordered : Bool
  next : Int
deriving DecidableEq, Repr

/-- A computation with the open lists, innermost first.  A fault ends it and leaves the lists as they
are at that point. -/
def Session (α : Type) : Type := List ListContext → Except Fault α × List ListContext

namespace Session

variable {α β : Type}

/-! ## Steps -/

def pure (a : α) : Session α := fun lists => (.ok a, lists)

def bind (x : Session α) (f : α → Session β) : Session β := fun lists =>
  match x lists with
  | (.ok a, lists) => f a lists
  | (.error e, lists) => (.error e, lists)

/-- A computation that has nothing to do with lists. -/
def lift (x : Traced α) : Session α := fun lists => (x.outcome, lists)

def sequence : List (Session α) → Session (List α)
  | [] => pure []
  | x :: xs => x.bind fun a => (sequence xs).bind fun as => pure (a :: as)

/-- Opens a list and closes it afterwards, whether the computation ends with a value or a fault. -/
def inside (list : ListContext) (x : Session α) : Session α := fun lists =>
  ((x (list :: lists)).1, (x (list :: lists)).2.tail)

/-- The list that an item belongs to; there is one wherever items are rendered. -/
def innermost : Session ListContext := fun lists => (.ok (lists.headD ⟨false, 1⟩), lists)

def setNext (k : Int) : Session Unit := fun lists =>
  (.ok (), lists.modifyHead fun c => { c with next := k })

/-! ## Lists -/

/-- The marker of an item.  The number of the item itself goes before the one that is due. -/
def marker (depth : Nat) (item : Node) : Session Text :=
  innermost.bind fun list =>
    if list.ordered then
      (lift (Traced.ofSized (Table.readOptional (item.attribute? "value".toList)))).bind fun own =>
        (setNext (own.getD list.next)).bind fun _ =>
          (lift (Traced.ofSized (Text.writeInteger (own.getD list.next)))).bind fun number =>
            (setNext (own.getD list.next + 1)).bind fun _ =>
              pure (Markdown.numberMarker depth number)
    else pure (Markdown.bulletMarker depth)

/-- A segment of an item. -/
structure Part where
  kind : SegmentKind
  rendering : Session Text

/-- The text of the marker line, and what comes below it. -/
structure Opening where
  text : Text
  held : Option Text
  rest : List Part

/-- Renders parts until the text of the marker line is found. -/
def opening : List Part → Session Opening
  | [] => pure ⟨[], none, []⟩
  | p :: rest =>
    match p.kind with
    | .nestedList => pure ⟨[], none, p :: rest⟩
    | .inline => p.rendering.bind fun t =>
      if t.isEmpty then opening rest else pure ⟨t, none, rest⟩
    | .block => p.rendering.bind fun t =>
      if t.contains '\n' then pure ⟨[], some t, rest⟩ else pure ⟨Text.trim t, none, rest⟩

/-- An item from its parts, each rendered once and in order. -/
def item (depth : Nat) (marker : Text) (parts : List Part) : Session Text :=
  (opening parts).bind fun first =>
    (sequence (first.rest.map (·.rendering))).bind fun texts =>
      let held := first.held.toList.map (SegmentKind.block, ·)
      pure (Markdown.itemText depth marker first.text
        (held ++ (first.rest.map (·.kind)).zip texts))

/-- A list around its items; the start is read before the list is opened. -/
def openList (ordered : Bool) (list : Node) (items : Session (List Text)) : Session Text :=
  (lift (Traced.ofSized (Render.firstNumber ordered list))).bind fun first =>
    (inside ⟨ordered, first.getD 1⟩ items).bind fun texts => pure (Text.unlines texts)

/-! ## Tables and figures -/

/-- A cell that is not rendered yet. -/
structure OpenCell where
  colspan : Option Text
  rowspan : Option Text
  content : Session Text

/-- Reads the spans of a cell if they are asked for. -/
def readSpans (asked : Bool) (colspan rowspan : Option Text) : Traced Unit :=
  if asked then
    (Traced.ofSized (Table.span colspan)).bind fun _ =>
      (Traced.ofSized (Table.span rowspan)).bind fun _ => Traced.pure ()
  else Traced.pure ()

/-- Renders a cell and reads its spans. -/
def renderCell (asked : Bool) (c : OpenCell) : Session Cell :=
  c.content.bind fun value =>
    (lift (readSpans asked c.colspan c.rowspan)).bind fun _ =>
      pure ⟨c.colspan, c.rowspan, Traced.pure value⟩

def renderRow (asked : Bool) (row : Row OpenCell) : Session (Row Cell) :=
  (sequence (row.cells.map (renderCell asked))).bind fun cells => pure ⟨row.header, cells⟩

/-- Some cell reaches over rows, so that the spans of each are read along with it. -/
def isExpanded (rows : List (Row OpenCell)) : Bool :=
  (rows.flatMap Row.cells).any (Table.isSignificantSpan ·.rowspan)

/-- A table: all cells are rendered in order, then it is laid out. -/
def table (rows : List (Row OpenCell)) (caption : Traced Text) : Session Text :=
  (sequence (rows.map (renderRow (isExpanded rows)))).bind fun rows =>
    lift (Table.render rows caption)

/-- A code figure, the blocks before and after the code rendered last. -/
def codeFigure (opts : Options) (figure : Place) (parts : Figure.Parts)
    (before after : Session (List Text)) : Session Text :=
  (lift (Render.figureCaption parts)).bind fun _ =>
    (lift (if opts.detectLanguage then Figure.detectLanguage figure else Traced.pure [])).bind
      fun _ =>
        (lift (Render.fence opts parts.code)).bind fun _ =>
          before.bind fun before =>
            after.bind fun after =>
              lift (Render.codeFigure opts figure parts (Traced.pure before) (Traced.pure after))

/-- Blocks put together, or the same nodes in a line if they come to nothing. -/
def orInline (scope : Scope) (nodes : List Node) (finish : Text → Text)
    (blocks : Session (List Text)) : Session Text :=
  blocks.bind fun parts =>
    if Text.allBlank (Text.joinBlocks parts) then lift (Inline.render scope nodes)
    else pure (finish (Text.joinBlocks parts))

/-- A run of inline children as at most one part. -/
def runPart (scope : Scope) (nodes : List Node) : List Part :=
  if nodes.isEmpty then [] else [⟨.inline, lift (Inline.render scope nodes)⟩]

/-! ## The recursion -/

mutual

/-- One node as a block.  What can hold no list is rendered without the stack. -/
def block (opts : Options) (scope : Scope) : Node → Session Text
  | .element name attrs cs =>
    let n := Node.element name attrs cs
    let place : Place := ⟨[], scope, n⟩
    match n.role with
    | .table =>
      if (place.findTag? "table".toList).isSome then pure n.outerMarkup
      else table (rowsAmong opts (name :: scope) cs) (Render.caption place)
    | .quote =>
      if cs.any Node.isBlock then
        (blocks opts (name :: scope) Render.keepAll [] cs).bind
          (pure ∘ Markdown.quote ∘ Text.joinBlocks)
      else lift ((Inline.render (name :: scope) cs).bind (Traced.pure ∘ Markdown.quote))
    | .list ordered => openList ordered n (items opts (name :: scope) 0 cs)
    | .figure =>
      match Figure.parts? place with
      | some parts =>
        codeFigure opts place parts (blocks opts (name :: scope) parts.isBefore [] cs)
          (blocks opts (name :: scope) parts.isAfter [] cs)
      | none => orInline (name :: scope) cs id (blocks opts (name :: scope) Render.keepAll [] cs)
    | .container => orInline (name :: scope) cs id (blocks opts (name :: scope) Render.keepAll [] cs)
    | _ => lift (Render.block opts scope n)
  | .text _ => pure []
  | .comment _ => pure []
  | .directive _ _ => pure []

/-- The parts of those siblings whose position `keep` admits, after the inline nodes `pending`. -/
def blocks (opts : Options) (scope : Scope) (keep : Nat → Bool) (pending : List Node) :
    List Node → Session (List Text)
  | [] => lift (Render.run scope pending)
  | n :: ns =>
    if !keep 0 then blocks opts scope (fun i => keep (i + 1)) pending ns
    else if n.isBlock then
      (lift (Render.run scope pending)).bind fun before =>
        (block opts scope n).bind fun t =>
          (blocks opts scope (fun i => keep (i + 1)) [] ns).bind fun rest =>
            pure (before ++ Render.part t ++ rest)
    else if Render.isShown n then blocks opts scope (fun i => keep (i + 1)) (pending ++ [n]) ns
    else blocks opts scope (fun i => keep (i + 1)) pending ns

/-- The items of the innermost list. -/
def items (opts : Options) (scope : Scope) (depth : Nat) : List Node → Session (List Text)
  | [] => pure []
  | n :: ns =>
    match n with
    | .element name attrs cs =>
      if Text.lower name = "li".toList then
        (marker depth (.element name attrs cs)).bind fun marker =>
          (item depth marker (parts opts (name :: scope) depth [] cs)).bind fun text =>
            (items opts scope depth ns).bind fun rest => pure (text :: rest)
      else items opts scope depth ns
    | _ => items opts scope depth ns

/-- The parts of an item of a list at a depth, after the inline children `pending`. -/
def parts (opts : Options) (scope : Scope) (depth : Nat) (pending : List Node) :
    List Node → List Part
  | [] => runPart scope pending
  | n :: ns =>
    match n with
    | .element name attrs cs =>
      match Role.ofTag (Text.lower name) with
      | .list ordered =>
        runPart scope pending ++
          ⟨.nestedList, openList ordered (.element name attrs cs)
            (items opts (name :: scope) (depth + 1) cs)⟩ :: parts opts scope depth [] ns
      | role =>
        if role.isBlock then
          runPart scope pending ++
            ⟨.block, block opts scope (.element name attrs cs)⟩ :: parts opts scope depth [] ns
        else parts opts scope depth (pending ++ [.element name attrs cs]) ns
    | _ => parts opts scope depth (pending ++ [n]) ns

/-- The rows at or below a node. -/
def rowsOf (opts : Options) (scope : Scope) : Node → List (Row OpenCell)
  | .element name _ cs =>
    (if Text.lower name = "tr".toList && cs.any Render.isCell then
        [⟨Render.isHeaderRow scope cs, cellsAmong opts (name :: scope) cs⟩]
      else []) ++ rowsAmong opts (name :: scope) cs
  | _ => []

def rowsAmong (opts : Options) (scope : Scope) : List Node → List (Row OpenCell)
  | [] => []
  | n :: ns => rowsOf opts scope n ++ rowsAmong opts scope ns

/-- The cells among the children of a row. -/
def cellsAmong (opts : Options) (scope : Scope) : List Node → List OpenCell
  | [] => []
  | n :: ns =>
    match n with
    | .element name attrs cs =>
      if Render.isCell n then
        ⟨(Node.element name attrs cs).attribute? "colspan".toList,
          (Node.element name attrs cs).attribute? "rowspan".toList,
          orInline (name :: scope) cs Text.trim
            (blocks opts (name :: scope) Render.keepAll [] cs)⟩ ::
          cellsAmong opts scope ns
      else cellsAmong opts scope ns
    | _ => cellsAmong opts scope ns

end

/-- The children of an element as a list at a depth. -/
def list (opts : Options) (scope : Scope) (depth : Nat) (n : Node) : Session Text :=
  match n with
  | .element name _ cs =>
    openList (n.tag == "ol".toList) n (items opts (name :: scope) depth cs)
  | _ => pure []

section Parts

variable {opts : Options} {scope : Scope} {depth : Nat} {pending : List Node}

theorem parts_list {name : Text} {attrs : Attributes} {cs : List Node} {ordered : Bool}
    (hrole : (Node.element name attrs cs).role = .list ordered) (ns : List Node) :
    parts opts scope depth pending (.element name attrs cs :: ns) =
      runPart scope pending ++
        ⟨.nestedList, openList ordered (.element name attrs cs)
          (items opts (name :: scope) (depth + 1) cs)⟩ :: parts opts scope depth [] ns := by
  have hrole' : Role.ofTag (Text.lower name) = .list ordered := hrole
  simp only [parts, hrole']

theorem parts_block {n : Node} (hblock : n.isBlock = true)
    (hlist : ∀ ordered, n.role ≠ .list ordered) (ns : List Node) :
    parts opts scope depth pending (n :: ns) =
      runPart scope pending ++
        ⟨.block, block opts scope n⟩ :: parts opts scope depth [] ns := by
  cases n with
  | element name attrs cs =>
    simp only [parts]
    split
    · rename_i ordered hrole
      exact absurd hrole (hlist ordered)
    · exact if_pos hblock
  | text t => cases hblock
  | comment t => cases hblock
  | directive k t => cases hblock

theorem parts_inline {n : Node} (hblock : n.isBlock = false) (ns : List Node) :
    parts opts scope depth pending (n :: ns) = parts opts scope depth (pending ++ [n]) ns := by
  cases n with
  | element name attrs cs =>
    rw [parts]
    split
    · rename_i ordered hrole
      rw [Node.isBlock, Node.role, hrole] at hblock
      cases hblock
    · exact if_neg (Bool.eq_false_iff.mp hblock)
  | text t => simp only [parts]
  | comment t => simp only [parts]
  | directive k t => simp only [parts]

end Parts

/-! ## Following a computation without a stack -/

section Steps

variable {x : Session α} {lists lists' : List ListContext}

theorem bind_of_ok {a : α} (h : x lists = (.ok a, lists')) (f : α → Session β) :
    x.bind f lists = f a lists' := by
  unfold bind
  rw [h]

theorem bind_of_error {e : Fault} (h : x lists = (.error e, lists')) (f : α → Session β) :
    x.bind f lists = (.error e, lists') := by
  unfold bind
  rw [h]

theorem lift_ofSized_ok {y : Except Oversize α} {a : α} (h : y = .ok a) (lists : List ListContext) :
    lift (Traced.ofSized y) lists = (.ok a, lists) := by
  rw [h]
  rfl

theorem lift_ofSized_error {y : Except Oversize α} {size : Oversize} (h : y = .error size)
    (lists : List ListContext) : lift (Traced.ofSized y) lists = (.error (.oversize size), lists) := by
  rw [h]
  rfl

end Steps

/-- Two results of which both are faults, the same one, or both are values that are related. -/
inductive Alike (R : α → β → Prop) : Except Fault α → Except Fault β → Prop
  | ok {a : α} {b : β} : R a b → Alike R (.ok a) (.ok b)
  | error (e : Fault) : Alike R (.error e) (.error e)

theorem alike_eq_iff {r r' : Except Fault α} : Alike (· = ·) r r' ↔ r = r' := by
  constructor
  · intro h
    cases h with
    | ok h => rw [h]
    | error e => rfl
  · rintro rfl
    cases r with
    | ok a => exact .ok rfl
    | error e => exact .error e

/-- Whatever lists are open, the computation comes to what `y` comes to, up to `R`, and gives the
lists back as they were. -/
def FollowsBy (R : α → β → Prop) (x : Session α) (y : Traced β) : Prop :=
  ∀ lists, ∃ r, x lists = (r, lists) ∧ Alike R r y.outcome

/-- The same with equal values. -/
def Follows (x : Session α) (y : Traced α) : Prop := FollowsBy (· = ·) x y

section Follows

variable {γ δ : Type} {R : α → β → Prop} {S : γ → δ → Prop}

theorem follows_iff {x : Session α} {y : Traced α} :
    Follows x y ↔ ∀ lists, x lists = (y.outcome, lists) := by
  simp only [Follows, FollowsBy, alike_eq_iff, exists_eq_right]

theorem follows_lift (y : Traced α) : Follows (lift y) y := follows_iff.mpr fun _ => rfl

theorem followsBy_pure {a : α} {b : β} (h : R a b) : FollowsBy R (pure a) (Traced.pure b) :=
  fun _ => ⟨.ok a, rfl, .ok h⟩

theorem follows_pure (a : α) : Follows (pure a) (Traced.pure a) := followsBy_pure rfl

theorem followsBy_bind {x : Session α} {y : Traced β} {f : α → Session γ} {g : β → Traced δ}
    (hx : FollowsBy R x y) (hf : ∀ a b, R a b → FollowsBy S (f a) (g b)) :
    FollowsBy S (x.bind f) (y.bind g) := by
  intro lists
  obtain ⟨r, hr, halike⟩ := hx lists
  cases hy : y.outcome with
  | error e =>
    rw [hy] at halike
    cases halike
    rw [bind_of_error hr, Traced.bind_outcome_of_error hy]
    exact ⟨.error e, rfl, .error e⟩
  | ok b =>
    rw [hy] at halike
    cases halike with
    | ok h =>
      rw [bind_of_ok hr, Traced.bind_outcome_of_ok hy]
      exact hf _ _ h lists

theorem follows_bind {x : Session α} {y : Traced α} {f : α → Session γ} {g : α → Traced γ}
    (hx : Follows x y) (hf : ∀ a, Follows (f a) (g a)) : Follows (x.bind f) (y.bind g) :=
  followsBy_bind hx fun a _ h => h ▸ hf a

theorem follows_of_outcome {x : Session α} {y y' : Traced α} (h : Follows x y)
    (hy : y.outcome = y'.outcome) : Follows x y' := by
  rw [follows_iff] at h ⊢
  exact fun lists => hy ▸ h lists

theorem follows_sequence {xs : List (Session α)} {ys : List (Traced α)}
    (h : List.Forall₂ Follows xs ys) : Follows (sequence xs) (Traced.sequence ys) := by
  induction h with
  | nil => exact follows_pure []
  | cons hx _ ih =>
    exact follows_bind hx fun a => follows_bind ih fun as => follows_pure (a :: as)

theorem alike_bind {x : Traced α} {y : Traced β} {f : α → Traced γ} {g : β → Traced δ}
    (h : Alike R x.outcome y.outcome)
    (hf : ∀ a b, R a b → Alike S (f a).outcome (g b).outcome) :
    Alike S (x.bind f).outcome (y.bind g).outcome := by
  unfold Traced.bind
  generalize x.outcome = r at h
  generalize y.outcome = r' at h
  cases h with
  | ok h => exact hf _ _ h
  | error e => exact .error e

theorem alike_sequence {xs : List (Traced α)} {ys : List (Traced β)}
    (h : List.Forall₂ (fun x y => Alike R x.outcome y.outcome) xs ys) :
    Alike (List.Forall₂ R) (Traced.sequence xs).outcome (Traced.sequence ys).outcome := by
  induction h with
  | nil => exact .ok .nil
  | cons hx _ ih =>
    exact alike_bind hx fun a b hab => alike_bind ih fun as bs habs => .ok (.cons hab habs)

end Follows

/-! ## Items -/

/-- A part and the segment that it is without the stack. -/
def PartFollows (p : Part) (s : Segment) : Prop := p.kind = s.kind ∧ Follows p.rendering s.rendering

theorem followsBy_opening {ps : List Part} {segments : List Segment}
    (h : List.Forall₂ PartFollows ps segments) :
    FollowsBy (fun (first : Opening) (first' : Leading) => first.text = first'.text ∧
      first.held = first'.held ∧ List.Forall₂ PartFollows first.rest first'.rest)
      (opening ps) (Markdown.leading segments) := by
  induction h with
  | nil => exact followsBy_pure ⟨rfl, rfl, .nil⟩
  | @cons p s ps segments hp hrest ih =>
    obtain ⟨hkind, hrendering⟩ := hp
    rw [opening, Markdown.leading, hkind]
    cases s.kind with
    | nestedList => exact followsBy_pure ⟨rfl, rfl, .cons ⟨hkind, hrendering⟩ hrest⟩
    | inline =>
      refine followsBy_bind hrendering fun t _ ht => ?_
      subst ht
      split
      · exact ih
      · exact followsBy_pure ⟨rfl, rfl, hrest⟩
    | block =>
      refine followsBy_bind hrendering fun t _ ht => ?_
      subst ht
      split
      · exact followsBy_pure ⟨rfl, rfl, hrest⟩
      · exact followsBy_pure ⟨rfl, rfl, hrest⟩

theorem follows_item {ps : List Part} {segments : List Segment}
    (h : List.Forall₂ PartFollows ps segments) (depth : Nat) (marker : Text) :
    Follows (item depth marker ps) (Markdown.renderItem depth marker segments) := by
  refine followsBy_bind (followsBy_opening h) ?_
  rintro ⟨text, held, rest⟩ ⟨_, _, rest'⟩ ⟨rfl, rfl, hrest⟩
  replace hrest : List.Forall₂ PartFollows rest rest' := hrest
  have hkinds : rest.map (·.kind) = rest'.map (·.kind) := by
    clear h
    induction hrest with
    | nil => rfl
    | cons hp _ ih => rw [List.map_cons, List.map_cons, hp.1, ih]
  have hrenderings : List.Forall₂ Follows (rest.map (·.rendering)) (rest'.map (·.rendering)) :=
    List.forall₂_map_left_iff.mpr <| List.forall₂_map_right_iff.mpr <| hrest.imp fun _ _ hp => hp.2
  refine follows_bind (follows_sequence hrenderings) fun texts => ?_
  rw [hkinds]
  exact follows_pure _

/-! ## Lists -/

/-- The number that the next item takes, none in a list of bullets. -/
def due (list : ListContext) : Option Int := if list.ordered then some list.next else none

/-- The items of a list come to what items with the number of the list come to, and change nothing
but that number. -/
def Counts (x : Session α) (y : Option Int → Traced α) : Prop :=
  ∀ list lists, ∃ list', x (list :: lists) = ((y (due list)).outcome, list' :: lists)

/-- The marker of an item and the number in it, from the number that is due. -/
def numbered (depth : Nat) (due : Option Int) (n : Node) : Traced (Option Int × Text) :=
  (Traced.ofSized (Render.itemNumber due n)).bind fun number =>
    (Traced.ofSized (Render.itemMarker depth number)).bind fun marker =>
      Traced.pure (number, marker)

theorem numbered_of_ok {depth : Nat} {due number : Option Int} {n : Node} {marker : Text}
    (hnumber : Render.itemNumber due n = .ok number)
    (hmarker : Render.itemMarker depth number = .ok marker) :
    (numbered depth due n).outcome = .ok (number, marker) := by
  rw [numbered, hnumber, Traced.bind_outcome_of_ok rfl, hmarker]
  rfl

/-- An item takes its number from the innermost list and leaves the next one there. -/
theorem marker_alike (depth : Nat) (n : Node) (list : ListContext) (lists : List ListContext) :
    ∃ r list', marker depth n (list :: lists) = (r, list' :: lists) ∧
      Alike (fun m numbered => m = numbered.2 ∧ due list' = numbered.1.map (· + 1)) r
        (numbered depth (due list) n).outcome := by
  obtain ⟨ordered, next⟩ := list
  cases ordered with
  | false => exact ⟨_, _, rfl, .ok ⟨rfl, rfl⟩⟩
  | true =>
    have hlist : innermost (⟨true, next⟩ :: lists) = (.ok ⟨true, next⟩, ⟨true, next⟩ :: lists) := rfl
    have hset : ∀ j k, setNext k (⟨true, j⟩ :: lists) = (.ok (), ⟨true, k⟩ :: lists) :=
      fun _ _ => rfl
    have hdue : due ⟨true, next⟩ = some next := rfl
    rw [marker, bind_of_ok hlist, if_pos rfl, hdue]
    cases hvalue : Table.readOptional (n.attribute? "value".toList) with
    | error size =>
      have hnumber : Render.itemNumber (some next) n = .error size := by
        rw [Render.itemNumber, hvalue]
        rfl
      refine ⟨_, _, bind_of_error (lift_ofSized_error rfl _) _, ?_⟩
      rw [numbered, hnumber]
      exact .error _
    | ok own =>
      have hnumber : Render.itemNumber (some next) n = .ok (some (own.getD next)) := by
        rw [Render.itemNumber, hvalue]
        rfl
      rw [bind_of_ok (lift_ofSized_ok rfl _), bind_of_ok (hset next _)]
      cases hwritten : Text.writeInteger (own.getD next) with
      | error size =>
        have hmarker : Render.itemMarker depth (some (own.getD next)) = .error size := by
          rw [Render.itemMarker, hwritten]
          rfl
        refine ⟨_, _, bind_of_error (lift_ofSized_error rfl _) _, ?_⟩
        rw [numbered, hnumber, Traced.bind_outcome_of_ok rfl, hmarker]
        exact .error _
      | ok number =>
        have hmarker : Render.itemMarker depth (some (own.getD next)) =
            .ok (Markdown.numberMarker depth number) := by
          rw [Render.itemMarker, hwritten]
          rfl
        rw [bind_of_ok (lift_ofSized_ok rfl _), bind_of_ok (hset (own.getD next) _)]
        refine ⟨_, _, rfl, ?_⟩
        rw [numbered_of_ok hnumber hmarker]
        exact .ok ⟨rfl, rfl⟩

theorem due_of_firstNumber {ordered : Bool} {n : Node} {first : Option Int}
    (h : Render.firstNumber ordered n = .ok first) : due ⟨ordered, first.getD 1⟩ = first := by
  cases ordered with
  | false => exact Except.ok.inj h
  | true =>
    rw [Render.firstNumber, if_pos rfl, Render.map_readOptional_eq_ok_iff] at h
    rw [h.2]
    rfl

/-- A list that is closed leaves the lists around it as they were. -/
theorem follows_inside (list : ListContext) {x : Session α} {y : Option Int → Traced α}
    (h : Counts x y) : Follows (inside list x) (y (due list)) := by
  rw [follows_iff]
  intro lists
  obtain ⟨list', hx⟩ := h list lists
  rw [inside, hx]
  rfl

theorem follows_openList (ordered : Bool) (n : Node) {x : Session (List Text)}
    {y : Option Int → Traced (List Text)} (h : Counts x y) :
    Follows (openList ordered n x)
      ((Traced.ofSized (Render.firstNumber ordered n)).bind fun first =>
        (y first).bind (Traced.pure ∘ Text.unlines)) := by
  cases hfirst : Render.firstNumber ordered n with
  | error size =>
    refine follows_iff.mpr fun lists => ?_
    rw [openList, hfirst]
    rfl
  | ok first =>
    have hinside : Follows (inside ⟨ordered, first.getD 1⟩ x) (y first) := by
      have hfollows := follows_inside ⟨ordered, first.getD 1⟩ h
      rwa [due_of_firstNumber hfirst] at hfollows
    have hlist : Follows (openList ordered n x) ((y first).bind (Traced.pure ∘ Text.unlines)) := by
      rw [openList, hfirst]
      exact follows_bind hinside fun texts => follows_pure (Text.unlines texts)
    exact follows_of_outcome hlist rfl

theorem counts_pure (a : α) : Counts (pure a) fun _ => Traced.pure a :=
  fun list _ => ⟨list, rfl⟩

theorem counts_map {x : Session α} {y : Option Int → Traced α} (h : Counts x y) (f : α → β) :
    Counts (x.bind fun a => pure (f a)) fun due => (y due).bind fun a => Traced.pure (f a) := by
  intro list lists
  obtain ⟨list', hx⟩ := h list lists
  refine ⟨list', ?_⟩
  cases hy : (y (due list)).outcome with
  | error e => rw [bind_of_error (hy ▸ hx), Traced.bind_outcome_of_error hy]
  | ok a =>
    rw [bind_of_ok (hy ▸ hx), Traced.bind_outcome_of_ok hy]
    rfl

theorem counts_bind_of_follows {x : Session α} {y : Traced α} {f : α → Session β}
    {g : α → Option Int → Traced β} (hx : Follows x y) (hf : ∀ a, Counts (f a) (g a)) :
    Counts (x.bind f) fun due => y.bind fun a => g a due := by
  intro list lists
  have hx := follows_iff.mp hx (list :: lists)
  cases hy : y.outcome with
  | error e => exact ⟨list, by rw [bind_of_error (hy ▸ hx), Traced.bind_outcome_of_error hy]⟩
  | ok a =>
    rw [bind_of_ok (hy ▸ hx), Traced.bind_outcome_of_ok hy]
    exact hf a list lists

/-- What follows the marker takes its number from where the marker leaves off. -/
theorem counts_marker (depth : Nat) (n : Node) {f : Text → Session α}
    {g : Text → Option Int → Traced α} (hf : ∀ marker, Counts (f marker) (g marker)) :
    Counts ((marker depth n).bind f) fun due =>
      (numbered depth due n).bind fun numbered => g numbered.2 (numbered.1.map (· + 1)) := by
  intro list lists
  obtain ⟨r, list', hmarker, halike⟩ := marker_alike depth n list lists
  cases hnumbered : (numbered depth (due list) n).outcome with
  | error e =>
    rw [hnumbered] at halike
    cases halike
    exact ⟨list', by rw [bind_of_error hmarker, Traced.bind_outcome_of_error hnumbered]⟩
  | ok numbered =>
    rw [hnumbered] at halike
    cases halike with
    | ok h =>
      obtain ⟨rfl, hdue⟩ := h
      rw [bind_of_ok hmarker, Traced.bind_outcome_of_ok hnumbered, ← hdue]
      exact hf _ list' lists

/-- An item before others. -/
theorem counts_item {depth : Nat} {n : Node} {ps : List Part} {segments : List Segment}
    {x : Session (List Text)} {y : Option Int → Traced (List Text)}
    (hparts : List.Forall₂ PartFollows ps segments) (hrest : Counts x y) :
    Counts
      ((marker depth n).bind fun marker =>
        (item depth marker ps).bind fun text => x.bind fun rest => pure (text :: rest))
      fun due =>
        (Traced.ofSized (Render.itemNumber due n)).bind fun number =>
          (Traced.ofSized (Render.itemMarker depth number)).bind fun marker =>
            (Markdown.renderItem depth marker segments).bind fun item =>
              (y (number.map (· + 1))).bind fun rest => Traced.pure (item :: rest) := by
  have hcounts := counts_marker depth n fun marker =>
    counts_bind_of_follows (follows_item hparts depth marker) fun text =>
      counts_map hrest (text :: ·)
  simpa only [numbered, Traced.bind_assoc, Traced.pure_bind] using hcounts

end Session

end Hypermark
