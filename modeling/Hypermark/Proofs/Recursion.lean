import Hypermark.Render
import Hypermark.Proofs.Outcome

/-!
# The recursion of the renderer

Every proof about whole documents follows the renderer down the tree.  `Node.throughout` is the
induction for it: a property of single nodes that passes from everything below a node to the node
holds throughout.  `Render.reached` lists the elements that are rendered as blocks when siblings
are rendered, in document order; text that flows in a line and code are not searched.

* `reachedAmong_of_inline`: runs of inline siblings reach nothing.
* `segments_list`, `segments_block`, `segments_inline`: what a child adds to a list item.
* `items_cons`: what a child adds to the items of a list.
-/

namespace Hypermark

/-! ## Induction over trees -/

namespace Node

/-- `B` holds of a node and of every node below it. -/
inductive Throughout (B : Node → Prop) : Node → Prop
  | intro {n : Node} : B n → (∀ c ∈ n.children, Throughout B c) → Throughout B n

namespace Throughout

variable {B : Node → Prop} {n c : Node}

theorem here (h : Throughout B n) : B n := by
  cases h with
  | intro h _ => exact h

theorem child (h : Throughout B n) (hc : c ∈ n.children) : Throughout B c := by
  cases h with
  | intro _ h => exact h c hc

end Throughout

theorem throughout {B : Node → Prop}
    (step : ∀ n : Node, (∀ c ∈ n.children, Throughout B c) → B n) : ∀ n : Node, Throughout B n
  | .text t => .intro (step _ (by simp [children])) (by simp [children])
  | .comment t => .intro (step _ (by simp [children])) (by simp [children])
  | .directive k t => .intro (step _ (by simp [children])) (by simp [children])
  | .element name attrs cs =>
    have below : ∀ c ∈ cs, Throughout B c := fun c _ => throughout step c
    .intro (step _ below) below

section Decide

variable {B : Node → Prop}

theorem throughout_iff {n : Node} :
    n.Throughout B ↔ B n ∧ ∀ c ∈ n.children, c.Throughout B :=
  ⟨fun h => ⟨h.here, fun _ hc => h.child hc⟩, fun h => .intro h.1 h.2⟩

theorem throughout_leaf_iff {n : Node} (h : n.children = []) : n.Throughout B ↔ B n := by
  rw [throughout_iff, h]
  exact and_iff_left (List.forall_mem_nil _)

variable [DecidablePred B]

mutual

/-- A property that is decided for single nodes is decided throughout. -/
def decideThroughout : (n : Node) → Decidable (n.Throughout B)
  | .text t => decidable_of_iff (B (.text t)) (throughout_leaf_iff rfl).symm
  | .comment t => decidable_of_iff (B (.comment t)) (throughout_leaf_iff rfl).symm
  | .directive k t => decidable_of_iff (B (.directive k t)) (throughout_leaf_iff rfl).symm
  | .element name attrs cs =>
    have := decideThroughoutAll cs
    decidable_of_iff (B (.element name attrs cs) ∧ ∀ c ∈ cs, c.Throughout B) throughout_iff.symm

def decideThroughoutAll : (ns : List Node) → Decidable (∀ n ∈ ns, n.Throughout B)
  | [] => .isTrue (List.forall_mem_nil _)
  | n :: ns =>
    have := decideThroughout n
    have := decideThroughoutAll ns
    decidable_of_iff (n.Throughout B ∧ ∀ m ∈ ns, m.Throughout B) List.forall_mem_cons.symm

end

instance (ns : List Node) : Decidable (∀ n ∈ ns, n.Throughout B) := decideThroughoutAll ns

end Decide

end Node

/-! ## Elements rendered as blocks -/

/-- A table that is written as markup because there is another one in it. -/
def Place.isRawTable (p : Place) : Bool :=
  p.node.role == .table && (p.findTag? "table".toList).isSome

namespace Render

/-- Every sibling is kept. -/
def keepAll : Nat → Bool := fun _ => true

mutual

/-- The elements rendered as blocks when a node is, the node itself first. -/
def reached (scope : Scope) : Node → List Place
  | .element name attrs cs =>
    let place : Place := ⟨[], scope, .element name attrs cs⟩
    place ::
      match place.node.role with
      | .table =>
        if (place.findTag? "table".toList).isSome then []
        else reachedInRows (name :: scope) cs
      | .list _ => reachedInItems (name :: scope) cs
      | .figure =>
        match Figure.parts? place with
        | some parts =>
          reachedAmong (name :: scope) parts.isBefore cs ++
            reachedAmong (name :: scope) parts.isAfter cs
        | none => reachedAmong (name :: scope) keepAll cs
      | .quote | .container => reachedAmong (name :: scope) keepAll cs
      | _ => []
  | _ => []

/-- Among siblings, those whose position `keep` admits. -/
def reachedAmong (scope : Scope) (keep : Nat → Bool) : List Node → List Place
  | [] => []
  | n :: ns =>
    (if keep 0 && n.isBlock then reached scope n else []) ++
      reachedAmong scope (fun i => keep (i + 1)) ns

/-- Among the children of a list. -/
def reachedInItems (scope : Scope) : List Node → List Place
  | [] => []
  | n :: ns =>
    (match n with
      | .element name _ cs =>
        if Text.lower name = "li".toList then reachedAmong (name :: scope) keepAll cs else []
      | _ => []) ++ reachedInItems scope ns

/-- In the cells of the rows at or below a node. -/
def reachedInRow (scope : Scope) : Node → List Place
  | .element name _ cs =>
    (if Text.lower name = "tr".toList && cs.any isCell then reachedInCells (name :: scope) cs
      else []) ++ reachedInRows (name :: scope) cs
  | _ => []

def reachedInRows (scope : Scope) : List Node → List Place
  | [] => []
  | n :: ns => reachedInRow scope n ++ reachedInRows scope ns

/-- In the cells among the children of a row. -/
def reachedInCells (scope : Scope) : List Node → List Place
  | [] => []
  | n :: ns =>
    (match n with
      | .element name attrs cs =>
        if isCell (.element name attrs cs) then reachedAmong (name :: scope) keepAll cs else []
      | _ => []) ++ reachedInCells scope ns

end

theorem reachedAmong_of_inline (scope : Scope) (keep : Nat → Bool) {ns : List Node}
    (h : ns.any Node.isBlock = false) : reachedAmong scope keep ns = [] := by
  induction ns generalizing keep with
  | nil => rw [reachedAmong]
  | cons n ns ih =>
    rw [List.any_cons, Bool.or_eq_false_iff] at h
    rw [reachedAmong, h.1, Bool.and_false, ih _ h.2]
    rfl

theorem mem_reached_self (scope : Scope) {n : Node} (h : n.isBlock = true) :
    ⟨[], scope, n⟩ ∈ reached scope n := by
  cases n with
  | element name attrs cs =>
    rw [reached]
    exact List.mem_cons_self ..
  | text t => cases h
  | comment t => cases h
  | directive k t => cases h

theorem reached_subset_reachedAmong (scope : Scope) {n : Node} {ns : List Node} (hn : n ∈ ns)
    (h : n.isBlock = true) : reached scope n ⊆ reachedAmong scope keepAll ns := by
  induction ns with
  | nil => cases hn
  | cons m ns ih =>
    rw [reachedAmong]
    rcases List.mem_cons.mp hn with rfl | hn
    · have hkept : (keepAll 0 && n.isBlock) = true := h
      rw [if_pos hkept]
      exact List.subset_append_left ..
    · exact List.Subset.trans (ih hn) (List.subset_append_right ..)

/-! ## Segments of items -/

section Segments

variable {opts : Options} {scope : Scope} {depth : Nat} {pending : List Node}

theorem segments_list {name : Text} {attrs : Attributes} {cs : List Node} {ordered : Bool}
    (hrole : (Node.element name attrs cs).role = .list ordered) (ns : List Node) :
    segments opts scope depth pending (.element name attrs cs :: ns) =
      runSegment scope pending ++
        ⟨.nestedList, [.element name attrs cs],
          (Traced.ofSized (firstNumber ordered (.element name attrs cs))).bind fun first =>
            (items opts (name :: scope) (depth + 1) first cs).bind
              (Traced.pure ∘ Text.unlines)⟩ ::
          segments opts scope depth [] ns := by
  have hrole' : Role.ofTag (Text.lower name) = .list ordered := hrole
  simp only [segments, hrole']

theorem segments_block {n : Node} (hblock : n.isBlock = true)
    (hlist : ∀ ordered, n.role ≠ .list ordered) (ns : List Node) :
    segments opts scope depth pending (n :: ns) =
      runSegment scope pending ++
        ⟨.block, [n], block opts scope n⟩ :: segments opts scope depth [] ns := by
  cases n with
  | element name attrs cs =>
    simp only [segments]
    split
    · rename_i ordered hrole
      exact absurd hrole (hlist ordered)
    · exact if_pos hblock
  | text t => cases hblock
  | comment t => cases hblock
  | directive k t => cases hblock

theorem segments_inline {n : Node} (hblock : n.isBlock = false) (ns : List Node) :
    segments opts scope depth pending (n :: ns) =
      segments opts scope depth (pending ++ [n]) ns := by
  cases n with
  | element name attrs cs =>
    rw [segments]
    split
    · rename_i ordered hrole
      rw [Node.isBlock, Node.role, hrole] at hblock
      cases hblock
    · exact if_neg (Bool.eq_false_iff.mp hblock)
  | text t => simp only [segments]
  | comment t => simp only [segments]
  | directive k t => simp only [segments]

end Segments

/-! ## Items of lists -/

theorem not_item_of_no_tag {n : Node} (h : n.tag = []) : n.tag ≠ "li".toList := by
  rw [h]
  decide

theorem reachedInItems_cons (scope : Scope) (n : Node) (ns : List Node) :
    reachedInItems scope (n :: ns) =
      (if n.tag = "li".toList then
          reachedAmong (⟨[], scope, n⟩ : Place).innerScope keepAll n.children
        else []) ++ reachedInItems scope ns := by
  cases n with
  | element name attrs cs =>
    rw [reachedInItems]
    rfl
  | text t => simp only [reachedInItems, if_neg (not_item_of_no_tag (n := .text t) rfl)]
  | comment t => simp only [reachedInItems, if_neg (not_item_of_no_tag (n := .comment t) rfl)]
  | directive k t => simp only [reachedInItems, if_neg (not_item_of_no_tag (n := .directive k t) rfl)]

/-- What the first child of a list adds to its items: an item with its number and marker, or
nothing. -/
theorem items_cons {opts : Options} {scope : Scope} {depth : Nat} {due : Option Int} {n : Node}
    {ns : List Node} {ls : List Text}
    (h : (items opts scope depth due (n :: ns)).outcome = .ok ls) :
    (n.tag = "li".toList ∧ ∃ number marker item rest,
      itemNumber due n = .ok number ∧ itemMarker depth number = .ok marker ∧
      (Markdown.renderItem depth marker
        (itemSegments opts (⟨[], scope, n⟩ : Place).innerScope depth n)).outcome = .ok item ∧
      (items opts scope depth (number.map (· + 1)) ns).outcome = .ok rest ∧ ls = item :: rest) ∨
    (n.tag ≠ "li".toList ∧ (items opts scope depth due ns).outcome = .ok ls) := by
  cases n with
  | element name attrs cs =>
    simp only [items] at h
    split at h
    · rename_i hli
      simp only [Traced.bind_outcome_eq_ok_iff, Traced.ofSized_outcome_eq_ok_iff] at h
      obtain ⟨number, hnumber, marker, hmarker, item, hitem, rest, hrest, h⟩ := h
      exact .inl ⟨hli, number, marker, item, rest, hnumber, hmarker, hitem, hrest,
        (Except.ok.inj h).symm⟩
    · rename_i hli
      exact .inr ⟨hli, h⟩
  | text t =>
    simp only [items] at h
    exact .inr ⟨not_item_of_no_tag rfl, h⟩
  | comment t =>
    simp only [items] at h
    exact .inr ⟨not_item_of_no_tag rfl, h⟩
  | directive k t =>
    simp only [items] at h
    exact .inr ⟨not_item_of_no_tag rfl, h⟩

end Render

end Hypermark
