import Hypermark.Figure
import Hypermark.Link
import Hypermark.Document.Role
import Hypermark.Proofs.AttributeLookup

/-!
# Other destinations in the same tree

To redirect a tree is to give its links and images other destinations, by a function that keeps
what counts about a destination: a safe one stays as it is, a blank one stays blank and a rejected
one stays rejected.  Whatever does not read destinations cannot tell a tree from the redirected one.

* `textIn_redirect`: texts are the same.
* `attribute?_redirect_of_ne`, `attributeOrEmpty_redirect`: what an attribute tells.
-/

namespace Hypermark

/-- The attribute of an element with this tag says where a link leads or an image comes from. -/
def isDestination (tag name : Text) : Bool :=
  (tag == "a".toList || tag == "img".toList) &&
    (Text.lower name == "href".toList || Text.lower name == "src".toList)

/-- The destination that an attribute value stands for; an absent value is empty. -/
def destinationOf (value : Option Text) : Text := value.getD []

/-- A change of attribute values after which every destination is judged as before. -/
structure KeepsVerdict (f : Option Text → Option Text) : Prop where
  safe : ∀ v, Link.isSafe (destinationOf v) = true → f v = v
  blank : ∀ v, Text.allBlank (destinationOf (f v)) = Text.allBlank (destinationOf v)
  verdict : ∀ v, Link.isSafe (destinationOf (f v)) = Link.isSafe (destinationOf v)

variable (f : Option Text → Option Text)

namespace Attributes

/-- The value that an attribute of an element with this tag is given. -/
def redirected (tag name : Text) (value : Option Text) : Option Text :=
  if isDestination tag name then f value else value

end Attributes

open Attributes

namespace Node

mutual

/-- The node with other destinations. -/
def redirect : Node → Node
  | text t => text t
  | element name attrs cs =>
    element name (mapValues (redirected f (Text.lower name)) attrs) (redirectAll cs)
  | comment t => comment t
  | directive k t => directive k t

def redirectAll : List Node → List Node
  | [] => []
  | n :: ns => redirect n :: redirectAll ns

end

variable {f}

theorem redirectAll_eq_map (ns : List Node) : redirectAll f ns = ns.map (redirect f) := by
  induction ns with
  | nil => rfl
  | cons n ns ih => rw [redirectAll, ih, List.map_cons]

/-! ## What stays -/

theorem role_redirect (n : Node) : (n.redirect f).role = n.role := by
  cases n <;> rfl

theorem isElement_redirect (n : Node) : (n.redirect f).isElement = n.isElement := by
  cases n <;> rfl

theorem isBlock_redirect (n : Node) : (n.redirect f).isBlock = n.isBlock := by
  rw [isBlock, role_redirect]
  rfl

mutual

theorem ownedText_redirect (wanted owner : Option Text) :
    (n : Node) → (n.redirect f).ownedText wanted owner = n.ownedText wanted owner
  | text t => by rw [redirect]
  | element name attrs cs => by
    rw [redirect, ownedText, ownedText, ownedTexts_redirect wanted (ownerInside name owner) cs]
  | comment t => by rw [redirect]
  | directive k t => by rw [redirect]

theorem ownedTexts_redirect (wanted owner : Option Text) :
    (ns : List Node) → ownedTexts wanted owner (redirectAll f ns) = ownedTexts wanted owner ns
  | [] => rfl
  | n :: ns => by
    rw [redirectAll, ownedTexts, ownedTexts, ownedText_redirect wanted owner n,
      ownedTexts_redirect wanted owner ns]

end

theorem textIn_redirect (scope : Scope) (n : Node) :
    (n.redirect f).textIn scope = n.textIn scope := by
  cases n with
  | element name attrs cs => rw [redirect, textIn, textIn, ownedTexts_redirect]
  | text t => rw [redirect]
  | comment t => rw [redirect]
  | directive k t => rw [redirect]

/-! ## Attributes -/

/-- Destinations are no lists of words. -/
theorem isWordList_of_isDestination {tag name : Text} (h : isDestination tag name = true) :
    isWordList tag name = false := by
  have hnames : ∀ name ∈ ["class".toList, "accesskey".toList, "dropzone".toList] ++
      wordLists.map Prod.snd, ¬ (Text.lower name = "href".toList ∨ Text.lower name = "src".toList) := by
    decide
  rw [isDestination, Bool.and_eq_true, Bool.or_eq_true, Bool.or_eq_true, beq_iff_eq, beq_iff_eq,
    beq_iff_eq, beq_iff_eq] at h
  rw [← Bool.not_eq_true, isWordList, Bool.or_eq_true, List.contains_iff_mem, List.contains_iff_mem]
  rintro (hmem | hmem)
  · exact hnames name (List.mem_append_left _ hmem) h.2
  · exact hnames name (List.mem_append_right _ (List.mem_map_of_mem hmem)) h.2

theorem writtenAttributes_redirect (n : Node) :
    (n.redirect f).writtenAttributes = mapValues (redirected f n.tag) n.writtenAttributes := by
  cases n with
  | element name attrs cs =>
    rw [redirect, writtenAttributes, writtenAttributes, mapValues_distinct]
    congr 1
    rw [mapValues, mapValues, List.map_map, List.map_map]
    congr 1
    funext a
    show settleValue _ (a.1, redirected f (Text.lower name) a.1 a.2) =
      (a.1, redirected f (Text.lower name) a.1 (settleValue (Text.lower name) a).2)
    by_cases hd : isDestination (Text.lower name) a.1 = true
    · rw [settleValue, settleValue, isWordList_of_isDestination hd]
      rfl
    · rw [redirected, redirected, if_neg hd, if_neg hd]
      rfl
  | text t => rw [redirect]; rfl
  | comment t => rw [redirect]; rfl
  | directive k t => rw [redirect]; rfl

/-- The attribute as written that a lookup finds. -/
def found? (n : Node) (name : Text) : Option (Text × Option Text) :=
  n.writtenAttributes.reverse.find? fun a => Text.lower a.1 == name

theorem found?_redirect (n : Node) (name : Text) : (n.redirect f).found? name =
    (n.found? name).map fun a => (a.1, redirected f n.tag a.1 a.2) := by
  rw [found?, writtenAttributes_redirect, mapValues, ← List.map_reverse, List.find?_map]
  rfl

theorem lower_of_found? {n : Node} {name : Text} {a : Text × Option Text}
    (h : n.found? name = some a) : Text.lower a.1 = name := by
  unfold found? at h
  have hfound := List.find?_some h
  exact beq_iff_eq.mp hfound

theorem attribute?_eq_found? (n : Node) (name : Text) :
    n.attribute? name = (n.found? name).map fun a => destinationOf a.2 := n.attribute?_eq name

theorem attribute?_redirect_of_ne (n : Node) {name : Text} (hh : name ≠ "href".toList)
    (hs : name ≠ "src".toList) : (n.redirect f).attribute? name = n.attribute? name := by
  rw [attribute?_eq_found?, attribute?_eq_found?, found?_redirect, Option.map_map]
  cases ha : n.found? name with
  | none => rfl
  | some a =>
    have hd : ¬ isDestination n.tag a.1 = true := by
      rw [isDestination, lower_of_found? ha, beq_eq_false_iff_ne.mpr hh,
        beq_eq_false_iff_ne.mpr hs]
      simp
    simp only [Option.map_some, Function.comp_apply, redirected, if_neg hd]

theorem attributeOrEmpty_redirect_of_ne (n : Node) {name : Text} (hh : name ≠ "href".toList)
    (hs : name ≠ "src".toList) :
    (n.redirect f).attributeOrEmpty name = n.attributeOrEmpty name := by
  rw [attributeOrEmpty, attribute?_redirect_of_ne n hh hs]
  rfl

/-- Two destinations that are judged alike, and are the same if they are safe. -/
structure Alike (u v : Text) : Prop where
  safe : Link.isSafe v = true → u = v
  blank : Text.allBlank u = Text.allBlank v
  verdict : Link.isSafe u = Link.isSafe v

theorem attributeOrEmpty_redirect (hf : KeepsVerdict f) (n : Node) (name : Text) :
    Alike ((n.redirect f).attributeOrEmpty name) (n.attributeOrEmpty name) := by
  rw [attributeOrEmpty, attributeOrEmpty, attribute?_eq_found?, attribute?_eq_found?,
    found?_redirect, Option.map_map]
  cases n.found? name with
  | none => exact ⟨fun _ => rfl, rfl, rfl⟩
  | some a =>
    simp only [Option.map_some, Function.comp_apply, Option.getD_some, redirected]
    split
    · exact ⟨fun h => by rw [hf.safe a.2 h], hf.blank a.2, hf.verdict a.2⟩
    · exact ⟨fun _ => rfl, rfl, rfl⟩

end Node

end Hypermark
