import Mathlib.Data.List.Basic
import Hypermark.Proofs.Interference
import Hypermark.Proofs.RawTable

/-!
# Rejected destinations that show

A raw table is written with all its attributes, so a rejected destination in it comes out.  To see
this in the output alone, all rejected destinations are lengthened: one that is shown is then longer
than the output was.

* `reached_redirect`: redirection keeps which elements are rendered as blocks.
* `attributeMarkup_infix_markup`: markup holds every attribute of every element.
* `exists_redirect_ne`: a raw table that is not safe lets rejected destinations show.
-/

namespace Hypermark

/-! ## Elements that are reached -/

namespace Render

open Node

variable {f : Option Text → Option Text}

theorem any_isCell_redirectAll (ns : List Node) :
    (redirectAll f ns).any isCell = ns.any isCell := by
  rw [redirectAll_eq_map, List.any_map]
  exact congrArg ns.any (funext hides_redirect.isCell_eq)

mutual

theorem reached_redirect (scope : Scope) :
    (n : Node) → reached scope (n.redirect f) = (reached scope n).map (Place.redirect f)
  | .text t => rfl
  | .comment t => rfl
  | .directive k t => rfl
  | .element name attrs cs => by
    have hrole := role_redirect (f := f) (.element name attrs cs)
    have hnested := Place.findTag?_redirect (f := f) ⟨[], scope, .element name attrs cs⟩
      "table".toList
    have hparts := Figure.parts?_redirect (f := f) ⟨[], scope, .element name attrs cs⟩
    have hamong := fun keep => reachedAmong_redirect (name :: scope) keep cs
    simp only [Place.redirect, redirect] at hrole hnested hparts
    simp only [redirect, reached, hrole, hnested, hparts, hamong, Option.isSome_map,
      reachedInItems_redirect (name :: scope) cs, reachedInRows_redirect (name :: scope) cs,
      List.map_cons]
    congr 1
    split
    · split
      · rfl
      · rfl
    · rfl
    · cases Figure.parts? ⟨[], scope, .element name attrs cs⟩ with
      | none => rfl
      | some parts =>
        simp only [Option.map_some, Figure.Parts.isBefore_redirect,
          Figure.Parts.isAfter_redirect, List.map_append]
    · rfl
    · rfl
    · rfl

theorem reachedAmong_redirect (scope : Scope) (keep : Nat → Bool) :
    (ns : List Node) → reachedAmong scope keep (redirectAll f ns) =
      (reachedAmong scope keep ns).map (Place.redirect f)
  | [] => rfl
  | n :: ns => by
    rw [redirectAll, reachedAmong, reachedAmong, isBlock_redirect, reached_redirect scope n,
      reachedAmong_redirect scope _ ns, List.map_append]
    split
    · rfl
    · rfl

theorem reachedInItems_redirect (scope : Scope) :
    (ns : List Node) → reachedInItems scope (redirectAll f ns) =
      (reachedInItems scope ns).map (Place.redirect f)
  | [] => rfl
  | .element name attrs cs :: ns => by
    rw [redirectAll, redirect, reachedInItems, reachedInItems,
      reachedInItems_redirect scope ns, reachedAmong_redirect (name :: scope) keepAll cs,
      List.map_append]
    split
    · rfl
    · rfl
  | .text t :: ns => reachedInItems_redirect scope ns
  | .comment t :: ns => reachedInItems_redirect scope ns
  | .directive k t :: ns => reachedInItems_redirect scope ns

theorem reachedInRow_redirect (scope : Scope) :
    (n : Node) → reachedInRow scope (n.redirect f) = (reachedInRow scope n).map (Place.redirect f)
  | .text t => rfl
  | .comment t => rfl
  | .directive k t => rfl
  | .element name attrs cs => by
    rw [redirect, reachedInRow, reachedInRow, any_isCell_redirectAll cs,
      reachedInCells_redirect (name :: scope) cs, reachedInRows_redirect (name :: scope) cs,
      List.map_append]
    split
    · rfl
    · rfl

theorem reachedInRows_redirect (scope : Scope) :
    (ns : List Node) → reachedInRows scope (redirectAll f ns) =
      (reachedInRows scope ns).map (Place.redirect f)
  | [] => rfl
  | n :: ns => by
    rw [redirectAll, reachedInRows, reachedInRows, reachedInRow_redirect scope n,
      reachedInRows_redirect scope ns, List.map_append]

theorem reachedInCells_redirect (scope : Scope) :
    (ns : List Node) → reachedInCells scope (redirectAll f ns) =
      (reachedInCells scope ns).map (Place.redirect f)
  | [] => rfl
  | .element name attrs cs :: ns => by
    have hcell := hides_redirect (f := f) |>.isCell_eq (.element name attrs cs)
    rw [redirect] at hcell
    rw [redirectAll, redirect, reachedInCells, reachedInCells, reachedInCells_redirect scope ns]
    simp only [hcell, reachedAmong_redirect (name :: scope) keepAll cs, List.map_append]
    split
    · rfl
    · rfl
  | .text t :: ns => reachedInCells_redirect scope ns
  | .comment t :: ns => reachedInCells_redirect scope ns
  | .directive k t :: ns => reachedInCells_redirect scope ns

end

theorem isRawTable_redirect (p : Place) : (p.redirect f).isRawTable = p.isRawTable := by
  rw [Place.isRawTable, Place.findTag?_redirect, Option.isSome_map, Place.redirect, role_redirect]
  rfl

end Render

/-! ## Attributes in markup -/

namespace Attributes

theorem mem_insertByName {a b : Text × Option Text} {as : Attributes} :
    b ∈ insertByName a as ↔ b = a ∨ b ∈ as := by
  induction as with
  | nil => rw [insertByName, List.mem_singleton]; simp
  | cons c as ih =>
    rw [insertByName]
    split
    · exact List.mem_cons
    · rw [List.mem_cons, List.mem_cons, ih]
      exact or_left_comm

theorem mem_sorted {a : Text × Option Text} {as : Attributes} : a ∈ as.sorted ↔ a ∈ as := by
  induction as with
  | nil => exact Iff.rfl
  | cons b as ih =>
    show a ∈ insertByName b (sorted as) ↔ _
    rw [mem_insertByName, List.mem_cons, ih]

end Attributes

namespace Node

theorem openingMarkup_infix_markup (raw : Bool) (name : Text) (attrs : Attributes)
    (cs : List Node) :
    openingMarkup name (element name attrs cs) <:+: markup raw (element name attrs cs) := by
  simp only [markup]
  split
  · exact (List.prefix_append _ _).isInfix
  · refine ⟨[], ">".toList ++ markupAll (isRaw name) cs ++ "</".toList ++ name ++ ">".toList, ?_⟩
    simp only [List.nil_append, List.append_assoc]

theorem children_infix_markup {raw : Bool} {name : Text} {attrs : Attributes} {cs : List Node}
    (h : cs ≠ []) :
    markupAll (isRaw name) cs <:+: markup raw (element name attrs cs) := by
  have hempty : (cs.isEmpty && isVoid name) = false := by
    rw [List.isEmpty_eq_false_iff.mpr h, Bool.false_and]
  simp only [markup, hempty, Bool.false_eq_true, if_false]
  refine ⟨openingMarkup name (element name attrs cs) ++ ">".toList,
    "</".toList ++ name ++ ">".toList, ?_⟩
  simp only [List.append_assoc]

mutual

theorem attributeMarkup_infix_markup (raw : Bool) (path : List Nat) (scope : Scope) :
    (n : Node) → ∀ q ∈ ((if n.isElement then [(⟨path, scope, n⟩ : Place)] else []) ++
      Place.elementsBelow path scope n), ∀ a ∈ q.node.writtenAttributes,
        attributeMarkup a <:+: markup raw n
  | .text t => by simp [isElement, Place.elementsBelow]
  | .comment t => by simp [isElement, Place.elementsBelow]
  | .directive k t => by simp [isElement, Place.elementsBelow]
  | .element name attrs cs => by
    intro q hq a ha
    have helement : (element name attrs cs).isElement = true := rfl
    rw [if_pos helement, List.singleton_append, List.mem_cons, Place.elementsBelow] at hq
    rcases hq with rfl | hq
    · have hopening : attributeMarkup a <:+: openingMarkup name (element name attrs cs) :=
        (List.infix_of_mem_flatten (List.mem_map_of_mem (Attributes.mem_sorted.mpr ha))).trans
          (List.suffix_append ('<' :: name) _).isInfix
      exact hopening.trans (openingMarkup_infix_markup raw name attrs cs)
    · have hne : cs ≠ [] := by
        rintro rfl
        cases hq
      exact (attributeMarkup_infix_markupAll (isRaw name) path (name :: scope) 0 cs q hq a ha).trans
        (children_infix_markup hne)

theorem attributeMarkup_infix_markupAll (raw : Bool) (path : List Nat) (scope : Scope) (i : Nat) :
    (ns : List Node) → ∀ q ∈ Place.elementsAmong path scope i ns,
      ∀ a ∈ q.node.writtenAttributes, attributeMarkup a <:+: markupAll raw ns
  | [] => by simp [Place.elementsAmong]
  | n :: ns => by
    intro q hq a ha
    rw [Place.elementsAmong, List.mem_append] at hq
    rw [markupAll]
    rcases hq with hq | hq
    · exact (attributeMarkup_infix_markup raw (path ++ [i]) scope n q hq a ha).trans
        (List.prefix_append _ _).isInfix
    · exact (attributeMarkup_infix_markupAll raw path scope (i + 1) ns q hq a ha).trans
        (List.suffix_append _ _).isInfix

end

theorem attributeMarkup_infix_outerMarkup {p q : Place} (hq : q ∈ p.descendants)
    {a : Text × Option Text} (ha : a ∈ q.node.writtenAttributes) :
    attributeMarkup a <:+: p.node.outerMarkup := by
  obtain ⟨path, scope, n⟩ := p
  cases n with
  | element name attrs cs =>
    exact attributeMarkup_infix_markup false path scope _ q (List.mem_append_right _ hq) a ha
  | text t => cases hq
  | comment t => cases hq
  | directive k t => cases hq

end Node

/-! ## Longer destinations -/

/-- The destination, made longer than `k` characters if it is rejected. -/
def lengthened (k : Nat) (v : Option Text) : Option Text :=
  if Link.isSafe (destinationOf v) then v
  else if Text.allBlank (destinationOf v) then some (List.replicate (k + 1) ' ')
  else some ("javascript:".toList ++ List.replicate k 'x')

theorem isSafe_of_allBlank {t : Text} (h : Text.allBlank t = true) : Link.isSafe t = false := by
  rw [Link.isSafe, (Text.trim_eq_nil_iff t).mpr h]
  rfl

theorem allBlank_replicate (k : Nat) : Text.allBlank (List.replicate k ' ') = true := by
  rw [Text.allBlank, List.all_eq_true]
  intro c hc
  rw [List.eq_of_mem_replicate hc]
  rfl

theorem mem_script {k : Nat} {c : Char} (h : c ∈ "javascript:".toList ++ List.replicate k 'x') :
    c ∈ "javascript:x".toList := by
  rcases List.mem_append.mp h with h | h
  · exact List.mem_append_left ['x'] h
  · rw [List.eq_of_mem_replicate h]
    decide

theorem not_isSafe_script (k : Nat) :
    Link.isSafe ("javascript:".toList ++ List.replicate k 'x') = false := by
  have hblank : ("javascript:x".toList.all (!Text.isBlank ·)) = true := rfl
  have hnoise : ("javascript:x".toList.all (!Link.isNoise ·)) = true := rfl
  rw [List.all_eq_true] at hblank hnoise
  rw [Link.isSafe,
    Text.trim_of_none_blank fun c hc => (Bool.not_eq_true' _).mp (hblank c (mem_script hc)),
    Link.compact, List.filter_eq_self.mpr fun c hc => hnoise c (mem_script hc)]
  rfl

theorem keepsVerdict_lengthened (k : Nat) : KeepsVerdict (lengthened k) where
  safe v hv := by rw [lengthened, if_pos hv]
  blank v := by
    unfold lengthened
    split
    · rfl
    split
    · rename_i hblank
      rw [hblank]
      exact allBlank_replicate (k + 1)
    · rename_i hblank
      rw [Bool.eq_false_iff.mpr hblank]
      rfl
  verdict v := by
    unfold lengthened
    split
    · rfl
    rename_i hv
    rw [Bool.eq_false_iff.mpr hv]
    split
    · exact isSafe_of_allBlank (allBlank_replicate (k + 1))
    · exact not_isSafe_script k

/-- Characters that are the same in markup, and none of them ends a line. -/
def Unescaped (t : Text) : Prop := ∀ c ∈ t, c ∉ "&<>\"\n\r".toList

theorem lengthened_of_rejected {k : Nat} {v : Option Text}
    (h : Link.isSafe (destinationOf v) ≠ true) :
    ∃ u, lengthened k v = some u ∧ k < u.length ∧ Unescaped u := by
  rw [lengthened, if_neg h]
  split
  · refine ⟨_, rfl, by simp, fun c hc => ?_⟩
    rw [List.eq_of_mem_replicate hc]
    decide
  · have hscript : ("javascript:x".toList.all (!"&<>\"\n\r".toList.contains ·)) = true := rfl
    rw [List.all_eq_true] at hscript
    refine ⟨_, rfl, by simp; omega, fun c hc hmem => ?_⟩
    have hnot := hscript c (mem_script hc)
    rw [List.contains_iff_mem.mpr hmem] at hnot
    cases hnot

section Unescaped

variable {u : Text} (h : Unescaped u)
include h

theorem word_quoted_of_unescaped : Word ('"' :: u ++ ['"']) where
  first := ⟨'"', u ++ ['"'], rfl, rfl⟩
  last := ⟨'"' :: u, '"', rfl, rfl⟩
  noFeed hmem := by
    rcases List.mem_append.mp hmem with hmem | hmem
    · exact h _ ((List.mem_cons.mp hmem).resolve_left (by decide)) (by decide)
    · exact absurd hmem (by decide)
  noReturn hmem := by
    rcases List.mem_append.mp hmem with hmem | hmem
    · exact h _ ((List.mem_cons.mp hmem).resolve_left (by decide)) (by decide)
    · exact absurd hmem (by decide)

theorem quoted_infix_attributeMarkup (name : Text) :
    '"' :: u ++ ['"'] <:+: Node.attributeMarkup (name, some u) := by
  have hescape : Node.escapeMarkup u = u := by
    have hsame : ∀ c ∈ u, (if c = '&' then "&amp;".toList else if c = '<' then "&lt;".toList
        else if c = '>' then "&gt;".toList else [c]) = [c] := by
      intro c hc
      have hc' := h c hc
      rw [if_neg, if_neg, if_neg]
      all_goals
        rintro rfl
        exact hc' (by decide)
    rw [Node.escapeMarkup, List.flatMap_congr hsame, List.flatMap_singleton']
  have hquote : u.contains '"' = false := by
    rw [← Bool.not_eq_true, List.contains_iff_mem]
    exact fun hc => h _ hc (by decide)
  have hvalue : Node.attributeMarkup (name, some u) = (' ' :: name ++ ['=']) ++ ('"' :: u ++ ['"']) := by
    show ' ' :: name ++ '=' :: Node.quoteValue (Node.escapeMarkup u) = _
    rw [hescape, Node.quoteValue, hquote, if_neg Bool.false_ne_true, List.append_assoc]
    rfl
  rw [hvalue]
  exact (List.suffix_append _ _).isInfix

end Unescaped

/-- Where a raw table holds a rejected destination, no document is the output for all of them. -/
theorem exists_redirect_ne (opts : Options) {ns : List Node} {p : Place}
    (hp : p ∈ Render.reachedAmong [Place.documentTag] Render.keepAll ns) (hraw : ¬p.RawSafe)
    (t : Text) : ∃ f, KeepsVerdict f ∧
      (convertTree opts (Node.redirectAll f ns)).outcome ≠ .ok t := by
  simp only [Place.RawSafe, Place.WritesSafe, Place.tag, Classical.not_imp, not_forall] at hraw
  obtain ⟨htable, q, hq, a, ha, hd, hunsafe⟩ := hraw
  obtain ⟨u, hu, hlength, hunescaped⟩ := lengthened_of_rejected (k := t.length) hunsafe
  refine ⟨lengthened t.length, keepsVerdict_lengthened _, fun hok => ?_⟩
  have hp' : p.redirect (lengthened t.length) ∈ Render.reachedAmong [Place.documentTag]
      Render.keepAll (Node.redirectAll (lengthened t.length) ns) := by
    rw [Render.reachedAmong_redirect]
    exact List.mem_map_of_mem hp
  have ha' : (a.1, some u) ∈ (q.redirect (lengthened t.length)).node.writtenAttributes := by
    rw [Place.redirect, Node.writtenAttributes_redirect, ← hu, Attributes.mapValues, List.mem_map]
    exact ⟨a, ha, by rw [Attributes.redirected, if_pos hd]⟩
  have hq' : q.redirect (lengthened t.length) ∈ (p.redirect (lengthened t.length)).descendants := by
    rw [Place.descendants_redirect]
    exact List.mem_map_of_mem hq
  have hshown : '"' :: u ++ ['"'] <:+: t :=
    convertTree_carries (word_quoted_of_unescaped hunescaped) hok hp'
      ((Render.isRawTable_redirect p).trans htable)
      ((quoted_infix_attributeMarkup hunescaped a.1).trans
        (Node.attributeMarkup_infix_outerMarkup hq' ha'))
  have hle := hshown.length_le
  rw [List.cons_append, List.length_cons, List.length_append] at hle
  omega

end Hypermark
