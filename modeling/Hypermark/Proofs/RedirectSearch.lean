import Hypermark.Proofs.HiddenBlocks
import Hypermark.Proofs.Redirect

/-!
# Searches in a redirected tree

A place keeps its path and scope when its tree is redirected, and a search by tags, classes and
texts finds the same places.

* `hides_redirect`: redirection keeps the shape of a tree and hides nothing.
* `findTag?_redirect`, `parts?_redirect`: what a search finds, and what a code figure is made of.
-/

namespace Hypermark

variable {f : Option Text → Option Text}

/-! ## Places -/

namespace Place

def redirect (f : Option Text → Option Text) (p : Place) : Place :=
  ⟨p.path, p.scope, p.node.redirect f⟩

theorem text_redirect (p : Place) : (p.redirect f).text = p.text := p.node.textIn_redirect p.scope

mutual

theorem elementsBelow_redirect (path : List Nat) (scope : Scope) :
    (n : Node) → elementsBelow path scope (n.redirect f) =
      (elementsBelow path scope n).map (redirect f)
  | .element name attrs cs => by
    rw [Node.redirect, elementsBelow, elementsBelow,
      elementsAmong_redirect path (name :: scope) 0 cs]
  | .text _ => rfl
  | .comment _ => rfl
  | .directive _ _ => rfl

theorem elementsAmong_redirect (path : List Nat) (scope : Scope) (i : Nat) :
    (ns : List Node) → elementsAmong path scope i (Node.redirectAll f ns) =
      (elementsAmong path scope i ns).map (redirect f)
  | [] => rfl
  | n :: ns => by
    rw [Node.redirectAll, elementsAmong, elementsAmong, Node.isElement_redirect,
      elementsBelow_redirect (path ++ [i]) scope n, elementsAmong_redirect path scope (i + 1) ns,
      List.map_append, List.map_append]
    split
    · rfl
    · rfl

end

theorem descendants_redirect (p : Place) :
    (p.redirect f).descendants = p.descendants.map (redirect f) :=
  elementsBelow_redirect p.path p.scope p.node

end Place

/-- Redirection hides nothing. -/
theorem hides_redirect : Hides (Node.redirect f) fun _ => false where
  leaf n h := by
    cases n with
    | element name attrs cs => cases h
    | text t => rfl
    | comment t => rfl
    | directive k t => rfl
  element name attrs cs := ⟨_, _, by rw [Node.redirect], fun _ => Node.redirectAll_eq_map cs⟩
  layout n name hname := by
    have hnames : ∀ name ∈ layoutAttributes, name ≠ "href".toList ∧ name ≠ "src".toList := by decide
    exact Node.attribute?_redirect_of_ne n (hnames name hname).1 (hnames name hname).2
  below _ _ h := h
  descendants p _ := by
    have hall : p.descendants.filter (fun _ => !false) = p.descendants :=
      List.filter_eq_self.mpr fun _ _ => rfl
    rw [hall]
    exact Place.descendants_redirect p

namespace Place

theorem findTag?_redirect (p : Place) (tag : Text) :
    (p.redirect f).findTag? tag = (p.findTag? tag).map (redirect f) :=
  hides_redirect.findTag?_change rfl tag fun _ _ => rfl

theorem inSight_redirect (opts : Options) (p : Place) :
    p.InSight opts (Node.redirect f) fun _ => false :=
  ⟨fun _ _ => rfl, fun q _ => ⟨rfl, q.text_redirect⟩⟩

end Place

/-! ## Figures -/

namespace Figure

open Place

/-- The parts of the redirected figure. -/
def Parts.redirect (f : Option Text → Option Text) (p : Parts) : Parts :=
  ⟨p.pre.redirect f, p.lines, p.caption.map (Place.redirect f)⟩

theorem parts?_redirect (figure : Place) :
    parts? (figure.redirect f) = (parts? figure).map (Parts.redirect f) :=
  hides_redirect.parts?_change rfl fun _ _ _ =>
    ⟨rfl, fun q _ => ⟨rfl, q.text_redirect⟩, fun _ _ => rfl⟩

theorem Parts.isBefore_redirect (p : Parts) : (p.redirect f).isBefore = p.isBefore :=
  p.isBefore_change

theorem Parts.isAfter_redirect (p : Parts) : (p.redirect f).isAfter = p.isAfter := p.isAfter_change

end Figure

end Hypermark
