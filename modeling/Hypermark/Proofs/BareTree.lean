import Hypermark.Proofs.HiddenBlocks

/-!
# Trees without hidden content

What stands in an ignored element is hidden.  A tree is bare if its ignored elements are empty, and
every tree can be stripped to a bare one.  A search in the bare tree finds what was not hidden, and
a line comes out the same if the code in it keeps its text.

* `hides_bare`: stripping a tree hides the content of ignored elements.
* `render_bare`: lines are the same.
-/

namespace Hypermark

/-- An enclosing element is ignored. -/
def Scope.isHidden (scope : Scope) : Bool :=
  scope.any fun name => Role.ofTag (Text.lower name) == .ignored

namespace Node

mutual

/-- The node with its ignored elements emptied. -/
def bare : Node → Node
  | text t => text t
  | element name attrs cs =>
    element name attrs (if Role.ofTag (Text.lower name) = .ignored then [] else bareAll cs)
  | comment t => comment t
  | directive k t => directive k t

def bareAll : List Node → List Node
  | [] => []
  | n :: ns => bare n :: bareAll ns

end

theorem bareAll_eq_map (ns : List Node) : bareAll ns = ns.map bare := by
  induction ns with
  | nil => rfl
  | cons n ns ih => rw [bareAll, ih, List.map_cons]

end Node

/-! ## Searches -/

theorem isHidden_cons {name : Text} {scope : Scope} (h : Scope.isHidden scope = false)
    (hname : Role.ofTag (Text.lower name) ≠ .ignored) : Scope.isHidden (name :: scope) = false := by
  rw [Scope.isHidden, List.any_cons, beq_eq_false_iff_ne.mpr hname]
  exact h

theorem isHidden_cons_of_isHidden (name : Text) (scope : Scope) (h : Scope.isHidden scope = true) :
    Scope.isHidden (name :: scope) = true := by
  rw [Scope.isHidden, List.any_cons]
  exact Bool.or_eq_true_iff.mpr (.inr h)

theorem isHidden_of_ignored {name : Text} (hname : Role.ofTag (Text.lower name) = .ignored)
    (scope : Scope) : Scope.isHidden (name :: scope) = true := by
  rw [Scope.isHidden, List.any_cons, beq_iff_eq.mpr hname, Bool.true_or]

mutual

theorem elementsBelow_bare (path : List Nat) {scope : Scope} (h : Scope.isHidden scope = false) :
    (n : Node) → Place.elementsBelow path scope n.bare =
      ((Place.elementsBelow path scope n).filter fun q => !Scope.isHidden q.scope).map
        (Place.change Node.bare)
  | .element name attrs cs => by
    rw [Node.bare, Place.elementsBelow, Place.elementsBelow]
    by_cases hignored : Role.ofTag (Text.lower name) = .ignored
    · -- nothing is left below, and all that was there is hidden
      have hbelow : ∀ q ∈ Place.elementsAmong path (name :: scope) 0 cs,
          Scope.isHidden q.scope = true :=
        Place.scope_of_mem_elementsAmong isHidden_cons_of_isHidden
          (isHidden_of_ignored hignored scope) cs
      rw [if_pos hignored, List.filter_eq_nil_iff.mpr fun q hq => by rw [hbelow q hq]; decide]
      rfl
    · rw [if_neg hignored, elementsAmong_bare path 0 (isHidden_cons h hignored) cs]
  | .text _ => rfl
  | .comment _ => rfl
  | .directive _ _ => rfl

theorem elementsAmong_bare (path : List Nat) {scope : Scope} (i : Nat)
    (h : Scope.isHidden scope = false) :
    (ns : List Node) → Place.elementsAmong path scope i (Node.bareAll ns) =
      ((Place.elementsAmong path scope i ns).filter fun q => !Scope.isHidden q.scope).map
        (Place.change Node.bare)
  | [] => rfl
  | n :: ns => by
    have helement : n.bare.isElement = n.isElement := by cases n <;> rfl
    rw [Node.bareAll, Place.elementsAmong, Place.elementsAmong, helement,
      elementsBelow_bare (path ++ [i]) h n, elementsAmong_bare path (i + 1) h ns,
      List.filter_append, List.filter_append, List.map_append, List.map_append]
    split
    · rw [List.filter_singleton, h]
      rfl
    · rfl

end

theorem hides_bare : Hides Node.bare Scope.isHidden where
  leaf n h := by
    cases n with
    | element name attrs cs => cases h
    | text t => rfl
    | comment t => rfl
    | directive k t => rfl
  element name attrs cs :=
    ⟨attrs, _, by rw [Node.bare], fun h => by rw [if_neg h, Node.bareAll_eq_map]⟩
  layout n name _ := by cases n <;> rfl
  below := isHidden_cons_of_isHidden
  descendants p h := elementsBelow_bare p.path h p.node

/-! ## Lines -/

namespace Node

mutual

/-- All `code` elements that are not hidden have the same text in the bare tree. -/
def keepsCodes (scope : Scope) : Node → Bool
  | element name attrs cs =>
    Role.ofTag (Text.lower name) == .ignored ||
      (Role.ofTag (Text.lower name) != .code ||
        (bare (element name attrs cs)).textIn scope == (element name attrs cs).textIn scope) &&
        keepsCodesAll (name :: scope) cs
  | _ => true

def keepsCodesAll (scope : Scope) : List Node → Bool
  | [] => true
  | n :: ns => keepsCodes scope n && keepsCodesAll scope ns

end

theorem keepsCodesAll_iff {scope : Scope} {ns : List Node} :
    keepsCodesAll scope ns = true ↔ ∀ n ∈ ns, n.keepsCodes scope = true := by
  induction ns with
  | nil => simp [keepsCodesAll]
  | cons n ns ih => rw [keepsCodesAll, Bool.and_eq_true, ih, List.forall_mem_cons]

theorem keepsCodes_element {scope : Scope} {name : Text} {attrs : Attributes} {cs : List Node}
    (h : (element name attrs cs).keepsCodes scope = true)
    (hname : Role.ofTag (Text.lower name) ≠ .ignored) :
    (Role.ofTag (Text.lower name) = .code →
      (bare (element name attrs cs)).textIn scope = (element name attrs cs).textIn scope) ∧
      ∀ c ∈ cs, c.keepsCodes (name :: scope) = true := by
  rw [keepsCodes, beq_eq_false_iff_ne.mpr hname, Bool.false_or, Bool.and_eq_true, Bool.or_eq_true,
    bne_iff_ne, beq_iff_eq, keepsCodesAll_iff] at h
  exact ⟨fun hcode => h.1.resolve_left fun hne => hne hcode, h.2⟩

mutual

theorem keepsCodes_of_mem_elementsBelow {path : List Nat} {scope : Scope} :
    (n : Node) → n.keepsCodes scope = true → ∀ q ∈ Place.elementsBelow path scope n,
      Scope.isHidden q.scope = false → q.node.keepsCodes q.scope = true
  | .element name attrs cs, h => by
    intro q hq hshown
    rw [Place.elementsBelow] at hq
    by_cases hname : Role.ofTag (Text.lower name) = .ignored
    · have hhidden := Place.scope_of_mem_elementsAmong isHidden_cons_of_isHidden
        (isHidden_of_ignored hname scope) cs q hq
      rw [hshown] at hhidden
      cases hhidden
    · exact keepsCodes_of_mem_elementsAmong cs (keepsCodes_element h hname).2 q hq hshown
  | .text _, _ => by simp [Place.elementsBelow]
  | .comment _, _ => by simp [Place.elementsBelow]
  | .directive _ _, _ => by simp [Place.elementsBelow]

theorem keepsCodes_of_mem_elementsAmong {path : List Nat} {scope : Scope} {i : Nat} :
    (ns : List Node) → (∀ n ∈ ns, n.keepsCodes scope = true) →
      ∀ q ∈ Place.elementsAmong path scope i ns, Scope.isHidden q.scope = false →
        q.node.keepsCodes q.scope = true
  | [], _ => by simp [Place.elementsAmong]
  | n :: ns, h => by
    rw [List.forall_mem_cons] at h
    rw [Place.elementsAmong, List.forall_mem_append, List.forall_mem_append]
    refine ⟨⟨fun q hq _ => ?_, keepsCodes_of_mem_elementsBelow n h.1⟩,
      keepsCodes_of_mem_elementsAmong ns h.2⟩
    split at hq
    · rw [List.mem_singleton.mp hq]
      exact h.1
    · cases hq

end

end Node

/-- The node is not hidden, and the code in it is the same in the bare tree. -/
def ReadsBare (scope : Scope) (n : Node) : Prop :=
  Scope.isHidden scope = false ∧ n.keepsCodes scope = true

theorem inherited_readsBare : Inherited Scope.isHidden ReadsBare where
  shown _ _ h := h.1
  child _ _ _ _ h hname c hc :=
    ⟨isHidden_cons h.1 hname, (Node.keepsCodes_element h.2 hname).2 c hc⟩
  found p q h hq hshown := ⟨hshown, Node.keepsCodes_of_mem_elementsBelow p.node h.2 q hq hshown⟩

namespace Inline

mutual

theorem addNode_bare : (n : Node) → ∀ scope b, ReadsBare scope n →
    addNode scope n.bare b = addNode scope n b
  | .text t => fun _ _ _ => rfl
  | .comment t => fun _ _ _ => rfl
  | .directive k t => fun _ _ _ => rfl
  | .element name attrs cs => by
    intro scope b h
    by_cases hname : Role.ofTag (Text.lower name) = .ignored
    · have hrole : ∀ cs, (Node.element name attrs cs).role = .ignored := fun _ => hname
      rw [Node.bare, addNode, addNode, hrole, hrole]
    · have hbelow := fun dropped b => addNodes_bare cs (name :: scope) dropped b
        (inherited_readsBare.child scope name attrs cs h hname)
      have hcode := (Node.keepsCodes_element h.2 hname).1
      rw [Node.bare, if_neg hname] at hcode ⊢
      have hattribute : ∀ key : Text, (Node.element name attrs (Node.bareAll cs)).attribute? key =
          (Node.element name attrs cs).attribute? key := fun _ => rfl
      have hrole : (Node.element name attrs (Node.bareAll cs)).role =
          (Node.element name attrs cs).role := rfl
      rw [addNode, addNode, hrole]
      simp only [imageMarkup, altLabel, hrefOf, sourceOf, Node.attributeOrEmpty, hattribute, hbelow]
      cases hr : (Node.element name attrs cs).role with
      | code => simp only [hcode hr]
      | _ => rfl

theorem addNodes_bare : (ns : List Node) → ∀ scope dropped b, (∀ n ∈ ns, ReadsBare scope n) →
    addNodes scope dropped (Node.bareAll ns) b = addNodes scope dropped ns b
  | [] => fun _ _ _ _ => rfl
  | n :: ns => by
    intro scope dropped b h
    rw [List.forall_mem_cons] at h
    have hseparator : isSeparator n.bare = isSeparator n := by cases n <;> rfl
    rw [Node.bareAll, addNodes, addNodes, hseparator, addNode_bare n scope b h.1]
    simp only [addNodes_bare ns scope _ _ h.2]

end

theorem render_bare {scope : Scope} {ns : List Node} (h : ∀ n ∈ ns, ReadsBare scope n) :
    (Inline.render scope (ns.map Node.bare)).outcome = (Inline.render scope ns).outcome := by
  rw [← Node.bareAll_eq_map, Inline.render, Inline.render, Inline.collapse, Inline.collapse, buffer,
    buffer, addNodes_bare ns scope false [] h]

end Inline

end Hypermark
