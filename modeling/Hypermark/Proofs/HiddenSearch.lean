import Hypermark.Proofs.KeptShape

/-!
# Searches past hidden elements

A change of trees hides some scopes if it takes away the elements in them and leaves all others
where they are.  Where a search found a hidden element, it goes on to the next one after the change;
so it finds the same if what it found before was not hidden.

* `findAll_change`, `find?_change`: what a search finds after the change.
* `codePre?_change`: the code of a figure, which is looked for in several ways, one after the other.
-/

namespace Hypermark

/-- The change `T` takes away the elements in hidden scopes and nothing else. -/
structure Hides (T : Node → Node) (hidden : Scope → Bool) : Prop extends KeepsShape T where
  below : ∀ name scope, hidden scope = true → hidden (name :: scope) = true
  descendants : ∀ p : Place, hidden p.scope = false →
    (p.change T).descendants =
      (p.descendants.filter fun q => !hidden q.scope).map (Place.change T)

/-- After the change the same is found as before, unless that was hidden. -/
def FoundAgain (T : Node → Node) (hidden : Scope → Bool) (found' found : Option Place) : Prop :=
  (∀ q ∈ found, hidden q.scope = false) → found' = found.map (Place.change T)

namespace FoundAgain

variable {T : Node → Node} {hidden : Scope → Bool}

theorem or {found found' other other' : Option Place} (h : FoundAgain T hidden found' found)
    (ho : FoundAgain T hidden other' other) :
    FoundAgain T hidden (found'.or other') (found.or other) := by
  intro hshown
  cases found with
  | none => rw [h nofun, Option.map_none, Option.none_or, Option.none_or, ho hshown]
  | some q => rw [h hshown, Option.map_some, Option.some_or, Option.some_or, Option.map_some]

theorem toList {found found' : Option Place} (h : FoundAgain T hidden found' found)
    (hshown : ∀ q ∈ found, hidden q.scope = false) :
    found'.toList = (found.toList.filter fun q => !hidden q.scope).map (Place.change T) := by
  rw [h hshown]
  cases found with
  | none => rfl
  | some q =>
    rw [Option.toList_some, List.filter_singleton, hshown q rfl]
    rfl

end FoundAgain

/-! ## Lists -/

section Lists

variable {α β : Type} {keep : α → Bool} {xs : List α}

theorem find?_filter_of {q : α → Bool} (h : ∀ a ∈ xs.find? q, keep a = true) :
    (xs.filter keep).find? q = xs.find? q := by
  induction xs with
  | nil => rfl
  | cons x xs ih =>
    rw [List.find?_cons] at h ⊢
    cases hq : q x with
    | true =>
      rw [hq] at h
      rw [List.filter_cons, if_pos (h x rfl), List.find?_cons, hq]
    | false =>
      rw [hq] at h
      rw [List.filter_cons]
      split
      · rw [List.find?_cons, hq]
        exact ih h
      · exact ih h

theorem findSome?_filter_of {f : α → Option β}
    (h : ∀ a ∈ xs.find? fun a => (f a).isSome, keep a = true) :
    (xs.filter keep).findSome? f = xs.findSome? f := by
  induction xs with
  | nil => rfl
  | cons x xs ih =>
    rw [List.find?_cons] at h
    rw [List.findSome?_cons]
    cases hf : f x with
    | some b =>
      simp only [hf, Option.isSome_some] at h
      rw [List.filter_cons, if_pos (h x rfl), List.findSome?_cons, hf]
    | none =>
      simp only [hf, Option.isSome_none] at h
      rw [List.filter_cons]
      split
      · rw [List.findSome?_cons, hf]
        exact ih h
      · exact ih h

end Lists

/-! ## Scopes -/

namespace Place

variable {Q : Scope → Prop}

mutual

/-- What holds of a scope and of every scope inside it holds of all that is found below. -/
theorem scope_of_mem_elementsBelow (hQ : ∀ name scope, Q scope → Q (name :: scope))
    {path : List Nat} {scope : Scope} (h : Q scope) :
    (n : Node) → ∀ q ∈ elementsBelow path scope n, Q q.scope
  | .element name _ cs => scope_of_mem_elementsAmong hQ (hQ name scope h) cs
  | .text _ => by simp [elementsBelow]
  | .comment _ => by simp [elementsBelow]
  | .directive _ _ => by simp [elementsBelow]

theorem scope_of_mem_elementsAmong (hQ : ∀ name scope, Q scope → Q (name :: scope))
    {path : List Nat} {scope : Scope} {i : Nat} (h : Q scope) :
    (ns : List Node) → ∀ q ∈ elementsAmong path scope i ns, Q q.scope
  | [] => by simp [elementsAmong]
  | n :: ns => by
    rw [elementsAmong, List.forall_mem_append, List.forall_mem_append]
    refine ⟨⟨fun q hq => ?_, scope_of_mem_elementsBelow hQ h n⟩, scope_of_mem_elementsAmong hQ h ns⟩
    split at hq
    · rw [List.mem_singleton.mp hq]
      exact h
    · cases hq

end

end Place

namespace Hides

variable {T : Node → Node} {hidden : Scope → Bool} (hT : Hides T hidden)
include hT

/-! ## Searches -/

section Search

variable {p : Place} (hp : hidden p.scope = false) {q : Place → Bool}
  (hq : ∀ p : Place, q (p.change T) = q p)
include hp hq

theorem findAll_change : (p.change T).findAll q =
    ((p.findAll q).filter fun p => !hidden p.scope).map (Place.change T) := by
  rw [Place.findAll, Place.findAll, hT.descendants p hp, List.filter_map, List.filter_filter,
    List.filter_filter]
  refine congrArg (List.map _) (List.filter_congr fun p _ => ?_)
  rw [Function.comp_apply, hq, Bool.and_comm]

theorem findAll_change_of_shown (h : ∀ a ∈ p.findAll q, hidden a.scope = false) :
    (p.change T).findAll q = (p.findAll q).map (Place.change T) := by
  rw [hT.findAll_change hp hq, List.filter_eq_self.mpr fun a ha => by rw [h a ha]; rfl]

theorem find?_change : FoundAgain T hidden ((p.change T).find? q) (p.find? q) := by
  intro hshown
  have hfind : (q ∘ Place.change T) = q := funext hq
  rw [Place.find?, hT.descendants p hp, List.find?_map, hfind, find?_filter_of]
  · rfl
  · exact fun a ha => by rw [hshown a ha]; rfl

end Search

theorem findTag?_change {p : Place} (hp : hidden p.scope = false) (tag : Text) :
    FoundAgain T hidden ((p.change T).findTag? tag) (p.findTag? tag) :=
  hT.find?_change hp fun p => by rw [hT.tag_change]

/-! ## Code -/

theorem preInside?_change (ps : List Place) : FoundAgain T hidden
    (Figure.preInside? ((ps.filter fun p => !hidden p.scope).map (Place.change T)))
    (Figure.preInside? ps) := by
  unfold Figure.preInside?
  induction ps with
  | nil => exact fun _ => rfl
  | cons p ps ih =>
    intro hshown
    rw [List.findSome?_cons] at hshown ⊢
    cases hp : hidden p.scope with
    | true =>
      -- a `pre` in a hidden cell is hidden as well, so the search cannot have ended here
      rw [List.filter_cons, if_neg (by simp [hp])]
      cases hpre : p.findTag? Figure.preTag with
      | none =>
        rw [hpre] at hshown
        exact ih hshown
      | some pre =>
        rw [hpre] at hshown
        have hbelow := Place.scope_of_mem_elementsBelow hT.below hp p.node pre
          (List.mem_of_find?_eq_some hpre)
        rw [hshown pre rfl] at hbelow
        cases hbelow
    | false =>
      have hagain := hT.findTag?_change hp Figure.preTag
      rw [List.filter_cons, if_pos (by simp [hp]), List.map_cons, List.findSome?_cons]
      cases hpre : p.findTag? Figure.preTag with
      | none =>
        rw [hpre] at hshown hagain
        rw [hagain nofun]
        exact ih hshown
      | some pre =>
        rw [hpre] at hshown hagain
        rw [hagain hshown]
        rfl

theorem codePre?_change {figure : Place} (hp : hidden figure.scope = false) :
    FoundAgain T hidden (Figure.codePre? (figure.change T)) (Figure.codePre? figure) := by
  have hfilter : ∀ {q : Place → Bool}, (∀ p : Place, q (p.change T) = q p) → ∀ ps : List Place,
      ((ps.filter fun p => !hidden p.scope).map (Place.change T)).filter q =
        ((ps.filter q).filter fun p => !hidden p.scope).map (Place.change T) := by
    intro q hq ps
    rw [List.filter_map, List.filter_filter, List.filter_filter]
    refine congrArg (List.map _) (List.filter_congr fun p _ => ?_)
    rw [Function.comp_apply, hq, Bool.and_comm]
  rw [Figure.codePre?, Figure.codePre?, hT.findAll_change hp fun p => by rw [hT.tag_change],
    hT.findAll_change hp hT.isHighlight_change, hfilter hT.isMainCell_change,
    hfilter fun p => by rw [hT.isGutter_change]]
  exact (hT.preInside?_change _).or <| (hT.preInside?_change _).or <|
    (hT.preInside?_change _).or <| hT.findTag?_change hp _

end Hides

end Hypermark
