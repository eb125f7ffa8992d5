import Hypermark.Figure
import Hypermark.Inline.Render

/-!
# Running text

The visible text of a tree is what its texts say, in document order and with angle brackets
escaped; ignored elements have none.  A tree is running text if nothing in it is set apart from the
flow: no tables, definition lists, code, images or links, and lists with items only.

* `Plain`: running text whose rules and line breaks hold nothing that would show.
* `Plain.below`: what stands in running text is running text.
-/

namespace Hypermark

namespace Node

mutual

/-- The texts of a node as they are written, those in ignored elements left out. -/
def visibleText : Node → Text
  | text t => Markdown.escapeAngles t
  | element name attrs cs =>
    if (element name attrs cs).role = .ignored then [] else visibleTexts cs
  | comment _ => []
  | directive _ _ => []

def visibleTexts : List Node → Text
  | [] => []
  | n :: ns => visibleText n ++ visibleTexts ns

end

mutual

/-- A test holds at a node and below it, ignored elements aside. -/
def everyShown (q : Node → Bool) : Node → Bool
  | element name attrs cs =>
    (element name attrs cs).role == .ignored || (q (element name attrs cs) && allShown q cs)
  | n => q n

def allShown (q : Node → Bool) : List Node → Bool
  | [] => true
  | n :: ns => everyShown q n && allShown q ns

end

/-- A child of a list that may show: an item, or anything without visible text. -/
def isItemOrBlank (n : Node) : Bool := n.tag == "li".toList || Text.allBlank n.visibleText

/-- The element by itself is one of running text: no table, definition list, code, image, code
figure or link to somewhere, and no list with text between its items. -/
def isProse (n : Node) : Bool :=
  match n.role with
  | .table | .definitions | .preformatted | .code | .image => false
  | .link => (Inline.hrefOf n).isEmpty
  | .figure => !Figure.isCode n
  | .list _ => n.children.all isItemOrBlank
  | _ => true

/-- A rule or line break holds nothing that would show. -/
def isVoidBlank (n : Node) : Bool :=
  match n.role with
  | .thematicBreak | .lineBreak => Text.allBlank (visibleTexts n.children)
  | _ => true

/-! ## Lemmas -/

theorem visibleTexts_append (xs ys : List Node) :
    visibleTexts (xs ++ ys) = visibleTexts xs ++ visibleTexts ys := by
  induction xs with
  | nil => rfl
  | cons x xs ih => rw [List.cons_append, visibleTexts, ih, visibleTexts, List.append_assoc]

theorem visibleText_of_ignored {n : Node} (h : n.role = .ignored) : n.visibleText = [] := by
  cases n with
  | element name attrs cs => rw [visibleText, if_pos h]
  | text t => cases h
  | comment t => rfl
  | directive k t => rfl

theorem visibleText_of_element {n : Node} (he : n.isElement = true) (h : n.role ≠ .ignored) :
    n.visibleText = visibleTexts n.children := by
  cases n with
  | element name attrs cs => rw [visibleText, if_neg h]; rfl
  | text t => cases he
  | comment t => cases he
  | directive k t => cases he

/-- Running text whose rules and line breaks are empty. -/
def Plain (n : Node) : Prop := n.everyShown isProse = true ∧ n.everyShown isVoidBlank = true

theorem allShown_iff {q : Node → Bool} {ns : List Node} :
    allShown q ns = true ↔ ∀ n ∈ ns, n.everyShown q = true := by
  induction ns with
  | nil => simp [allShown]
  | cons n ns ih => rw [allShown, Bool.and_eq_true, ih, List.forall_mem_cons]

theorem everyShown_of_not_ignored {q : Node → Bool} {name : Text} {attrs : Attributes}
    {cs : List Node} (h : (element name attrs cs).everyShown q = true)
    (hrole : (element name attrs cs).role ≠ .ignored) :
    q (element name attrs cs) = true ∧ ∀ c ∈ cs, c.everyShown q = true := by
  rw [everyShown, Bool.or_eq_true, beq_iff_eq, Bool.and_eq_true, allShown_iff] at h
  exact h.resolve_left hrole

namespace Plain

variable {name : Text} {attrs : Attributes} {cs : List Node}

theorem below (h : Plain (element name attrs cs))
    (hrole : (element name attrs cs).role ≠ .ignored) : ∀ c ∈ cs, Plain c := fun c hc =>
  ⟨(everyShown_of_not_ignored h.1 hrole).2 c hc, (everyShown_of_not_ignored h.2 hrole).2 c hc⟩

theorem prose (h : Plain (element name attrs cs))
    (hrole : (element name attrs cs).role ≠ .ignored) : isProse (element name attrs cs) = true :=
  (everyShown_of_not_ignored h.1 hrole).1

theorem voidBlank (h : Plain (element name attrs cs))
    (hrole : (element name attrs cs).role ≠ .ignored) :
    isVoidBlank (element name attrs cs) = true :=
  (everyShown_of_not_ignored h.2 hrole).1

end Plain

end Node

end Hypermark
