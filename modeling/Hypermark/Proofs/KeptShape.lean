import Hypermark.Proofs.RowPlaces

/-!
# Trees of one shape

A change of trees keeps their shape if elements keep their names and the attributes that say how a
block is laid out, and if all elements but the ignored ones keep their children, changed in their
turn.  Whatever looks at single nodes then finds the same before and after.

* `role_eq`, `hasClass_eq`, `languageOf?_eq`: what a node is taken for.
* `rowAt_change`: a row has the same cells, each of them changed.
-/

namespace Hypermark

/-- The attributes that decide on numbers, spans and languages. -/
def layoutAttributes : List Text :=
  ["class".toList, "start".toList, "value".toList, "colspan".toList, "rowspan".toList,
    "data-language".toList, "data-lang".toList, "lang".toList]

/-- The change `T` keeps the shape of trees. -/
structure KeepsShape (T : Node → Node) : Prop where
  leaf : ∀ n : Node, n.isElement = false → T n = n
  element : ∀ name attrs cs, ∃ attrs' cs', T (.element name attrs cs) = .element name attrs' cs' ∧
    (Role.ofTag (Text.lower name) ≠ .ignored → cs' = cs.map T)
  layout : ∀ n, ∀ name ∈ layoutAttributes, (T n).attribute? name = n.attribute? name

/-- The place with its node changed. -/
def Place.change (T : Node → Node) (p : Place) : Place := ⟨p.path, p.scope, T p.node⟩

theorem Node.role_of_tag {n : Node} {tag : Text} (h : n.tag = tag) (hne : tag ≠ []) :
    n.role = Role.ofTag tag := by
  cases n with
  | element name attrs cs => rw [← h]; rfl
  | text t => exact absurd h.symm hne
  | comment t => exact absurd h.symm hne
  | directive k t => exact absurd h.symm hne

theorem Node.not_ignored_of_tag {n : Node} {tag : Text} (h : n.tag = tag) (hne : tag ≠ [])
    (hrole : Role.ofTag tag ≠ .ignored) : n.role ≠ .ignored := by
  rw [Node.role_of_tag h hne]
  exact hrole

theorem Render.not_ignored_of_isRow {p : Place} (h : Render.isRow p = true) :
    p.node.role ≠ .ignored :=
  Node.not_ignored_of_tag (beq_iff_eq.mp (Bool.and_eq_true_iff.mp h).1) (by decide) (by decide)

theorem Render.not_ignored_of_isCell {n : Node} (h : Render.isCell n = true) :
    n.role ≠ .ignored := by
  rw [Render.isCell, Bool.or_eq_true, beq_iff_eq, beq_iff_eq] at h
  rcases h with htag | htag
  · exact Node.not_ignored_of_tag htag (by decide) (by decide)
  · exact Node.not_ignored_of_tag htag (by decide) (by decide)

namespace KeepsShape

variable {T : Node → Node} (hT : KeepsShape T)
include hT

/-! ## Nodes -/

theorem tag_eq (n : Node) : (T n).tag = n.tag := by
  cases n with
  | element name attrs cs =>
    obtain ⟨_, _, h, _⟩ := hT.element name attrs cs
    rw [h]
    rfl
  | text t => rw [hT.leaf _ rfl]
  | comment t => rw [hT.leaf _ rfl]
  | directive k t => rw [hT.leaf _ rfl]

theorem role_eq (n : Node) : (T n).role = n.role := by
  cases n with
  | element name attrs cs =>
    obtain ⟨_, _, h, _⟩ := hT.element name attrs cs
    rw [h]
    rfl
  | text t => rw [hT.leaf _ rfl]
  | comment t => rw [hT.leaf _ rfl]
  | directive k t => rw [hT.leaf _ rfl]

theorem isShown_eq (n : Node) : Render.isShown (T n) = Render.isShown n := by
  cases n with
  | element name attrs cs =>
    obtain ⟨_, _, h, _⟩ := hT.element name attrs cs
    rw [h]
    rfl
  | text t => rw [hT.leaf _ rfl]
  | comment t => rw [hT.leaf _ rfl]
  | directive k t => rw [hT.leaf _ rfl]

theorem isBlock_eq (n : Node) : (T n).isBlock = n.isBlock := by
  rw [Node.isBlock, hT.role_eq, Node.isBlock]

theorem isCell_eq (n : Node) : Render.isCell (T n) = Render.isCell n := by
  rw [Render.isCell, hT.tag_eq, Render.isCell]

theorem element_eq {name : Text} (attrs : Attributes) (cs : List Node)
    (h : Role.ofTag (Text.lower name) ≠ .ignored) :
    ∃ attrs', T (.element name attrs cs) = .element name attrs' (cs.map T) := by
  obtain ⟨attrs', cs', heq, hcs⟩ := hT.element name attrs cs
  rw [hcs h] at heq
  exact ⟨attrs', heq⟩

theorem any_map_isBlock (ns : List Node) : (ns.map T).any Node.isBlock = ns.any Node.isBlock := by
  rw [List.any_map]
  exact congrArg ns.any (funext hT.isBlock_eq)

/-! ## Attributes -/

theorem firstNumber_eq (ordered : Bool) (n : Node) :
    Render.firstNumber ordered (T n) = Render.firstNumber ordered n := by
  rw [Render.firstNumber, Render.firstNumber, hT.layout n _ (by decide)]

theorem itemNumber_eq (due : Option Int) (n : Node) :
    Render.itemNumber due (T n) = Render.itemNumber due n := by
  unfold Render.itemNumber
  rw [hT.layout n _ (by decide)]

theorem attributeOrEmpty_eq (n : Node) {name : Text} (h : name ∈ layoutAttributes) :
    (T n).attributeOrEmpty name = n.attributeOrEmpty name := by
  rw [Node.attributeOrEmpty, hT.layout n name h, Node.attributeOrEmpty]

theorem classes_eq (n : Node) : (T n).classes = n.classes := by
  rw [Node.classes, hT.attributeOrEmpty_eq n (by decide), Node.classes]

theorem hasClass_eq (n : Node) (token : Text) : (T n).hasClass token = n.hasClass token := by
  rw [Node.hasClass, hT.classes_eq, Node.hasClass]

theorem ofAttributes?_eq (n : Node) {names : List Text}
    (h : ∀ name ∈ names, name ∈ layoutAttributes) :
    Language.ofAttributes? (T n) names = Language.ofAttributes? n names := by
  unfold Language.ofAttributes?
  induction names with
  | nil => rfl
  | cons name names ih =>
    rw [List.forall_mem_cons] at h
    rw [List.findSome?_cons, List.findSome?_cons, hT.attributeOrEmpty_eq n h.1, ih h.2]

theorem ofNode?_eq (n : Node) : Language.ofNode? (T n) = Language.ofNode? n := by
  rw [Language.ofNode?, hT.ofAttributes?_eq n (by decide), hT.classes_eq, Language.ofNode?]

theorem detect_map (ns : List Node) : Language.detect (ns.map T) = Language.detect ns := by
  have hsome : (ns.map T).findSome? Language.ofNode? = ns.findSome? Language.ofNode? := by
    rw [List.findSome?_map]
    exact congrArg (List.findSome? · ns) (funext hT.ofNode?_eq)
  rw [Language.detect, hsome, Language.detect]

theorem languageOf?_eq (n : Node) : Figure.languageOf? (T n) = Figure.languageOf? n := by
  rw [Figure.languageOf?, hT.ofAttributes?_eq n (by decide), hT.classes_eq, Figure.languageOf?]

/-! ## Places -/

theorem tag_change (p : Place) : (p.change T).tag = p.tag := hT.tag_eq p.node

theorem isMainCell_change (p : Place) : Figure.isMainCell (p.change T) = Figure.isMainCell p := by
  rw [Figure.isMainCell, hT.tag_change, Place.change, hT.hasClass_eq, Figure.isMainCell]

theorem isGutter_change (p : Place) : Figure.isGutter (p.change T) = Figure.isGutter p :=
  hT.hasClass_eq p.node _

theorem isHighlight_change (p : Place) :
    Figure.isHighlight (p.change T) = Figure.isHighlight p := by
  rw [Figure.isHighlight, hT.tag_change, Place.change, hT.hasClass_eq, Figure.isHighlight]

/-- An element that is not ignored, in its place, with its children. -/
theorem children_change {p : Place} (h : p.node.role ≠ .ignored) :
    (p.change T).innerScope = p.innerScope ∧
      (p.change T).node.children = p.node.children.map T := by
  obtain ⟨path, scope, n⟩ := p
  rw [Place.change]
  cases n with
  | element name attrs cs =>
    obtain ⟨attrs', heq⟩ := hT.element_eq attrs cs h
    rw [heq]
    exact ⟨rfl, rfl⟩
  | text t => rw [hT.leaf _ rfl]; exact ⟨rfl, rfl⟩
  | comment t => rw [hT.leaf _ rfl]; exact ⟨rfl, rfl⟩
  | directive k t => rw [hT.leaf _ rfl]; exact ⟨rfl, rfl⟩

/-! ## Rows -/

omit hT in
theorem siblings_map (path : List Nat) (scope : Scope) (i : Nat) (ns : List Node) :
    Place.siblings path scope i (ns.map T) =
      (Place.siblings path scope i ns).map (Place.change T) := by
  induction ns generalizing i with
  | nil => rfl
  | cons n ns ih =>
    rw [List.map_cons, Place.siblings, Place.siblings, ih, List.map_cons]
    rfl

theorem isRow_change (p : Place) : Render.isRow (p.change T) = Render.isRow p := by
  rw [Render.isRow, Render.isRow, hT.tag_change]
  by_cases htag : p.tag = "tr".toList
  · have hrole := Node.not_ignored_of_tag htag (by decide) (by decide)
    rw [(hT.children_change hrole).2, List.any_map]
    exact congrArg (_ && p.node.children.any ·) (funext hT.isCell_eq)
  · rw [beq_eq_false_iff_ne.mpr htag, Bool.false_and, Bool.false_and]

theorem isHeaderRow_map (scope : Scope) (ns : List Node) :
    Render.isHeaderRow scope (ns.map T) = Render.isHeaderRow scope ns := by
  have hcells : (ns.map T).filter Render.isCell = (ns.filter Render.isCell).map T := by
    rw [List.filter_map]
    exact congrArg (List.map T <| List.filter · ns) (funext hT.isCell_eq)
  rw [Render.isHeaderRow, Render.isHeaderRow, hcells, List.all_map]
  exact congrArg (_ || (ns.filter Render.isCell).all ·)
    (funext fun n => congrArg (· == _) (hT.tag_eq n))

theorem rowAt_change {p : Place} (h : Render.isRow p = true) :
    Render.rowAt (p.change T) = (Render.rowAt p).mapCells (Place.change T) := by
  obtain ⟨hscope, hchildren⟩ := hT.children_change (Render.not_ignored_of_isRow h)
  rw [Render.rowAt, Render.rowAt, Row.mapCells, Place.children, Place.children, hscope, hchildren,
    hT.isHeaderRow_map, siblings_map, List.filter_map]
  exact congrArg (Row.mk _ <| List.map _ <| List.filter · _)
    (funext fun c : Place => hT.isCell_eq c.node)

end KeepsShape

end Hypermark
