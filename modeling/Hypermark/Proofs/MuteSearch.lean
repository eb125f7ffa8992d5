import Hypermark.Proofs.MuteNodes
import Hypermark.Proofs.RowPlaces

/-!
# Searches past mute nodes

Where mute nodes are taken away the later siblings move up, and with them everything below.  So a
search finds the same nodes as before, but at other places: child `i` has become child `rank i`.
What is read from the places of a figure is their order only, and that stays.

* `Moved`: a place before and after, `R` relating the two paths.
* `rel_find?`, `forall₂_findAll`: what a search finds.
* `codeLines_moved`, `detectLanguage_moved`: code and its language.
* `Figure.Parts.Moved`: the parts of a figure, with the same children before and after the code.
-/

namespace Hypermark

/-! ## Positions -/

namespace Node

/-- The position of child `i` once the mute siblings are gone. -/
def rank : List Node → Nat → Nat
  | [], _ => 0
  | _ :: _, 0 => 0
  | n :: ns, i + 1 => rank ns i + if n.isMute then 0 else 1

/-- There is a child `i`, and it is not mute. -/
def Stays (ns : List Node) (i : Nat) : Prop := ∃ n, ns[i]? = some n ∧ n.isMute = false

theorem stays_zero_iff {n : Node} {ns : List Node} : Stays (n :: ns) 0 ↔ n.isMute = false := by
  constructor
  · rintro ⟨m, hm, hmute⟩
    obtain rfl : n = m := Option.some.inj hm
    exact hmute
  · intro h
    exact ⟨n, rfl, h⟩

theorem rank_lt_of_lt {ns : List Node} {i j : Nat} (hi : Stays ns i) (h : i < j) :
    rank ns i < rank ns j := by
  induction ns generalizing i j with
  | nil =>
    obtain ⟨_, hn, _⟩ := hi
    cases hn
  | cons n ns ih =>
    cases j with
    | zero => exact absurd h (Nat.not_lt_zero i)
    | succ j =>
      cases i with
      | zero =>
        rw [rank, rank, stays_zero_iff.mp hi]
        exact Nat.succ_pos _
      | succ i =>
        rw [rank, rank]
        exact Nat.add_lt_add_right (ih hi (Nat.lt_of_succ_lt_succ h)) _

theorem rank_lt_iff {ns : List Node} {i j : Nat} (hi : Stays ns i) (hj : Stays ns j) :
    rank ns i < rank ns j ↔ i < j := by
  refine ⟨fun h => ?_, rank_lt_of_lt hi⟩
  rcases Nat.lt_trichotomy i j with hlt | rfl | hgt
  · exact hlt
  · exact absurd h (Nat.lt_irrefl _)
  · exact absurd h (Nat.lt_asymm (rank_lt_of_lt hj hgt))

theorem rank_inj {ns : List Node} {i j : Nat} (hi : Stays ns i) (hj : Stays ns j) :
    rank ns i = rank ns j ↔ i = j := by
  have hlt := rank_lt_iff hi hj
  have hgt := rank_lt_iff hj hi
  omega

end Node

/-! ## Related searches -/

section Relations

variable {α β γ : Type} {R : α → β → Prop} {xs : List α} {ys : List β}

theorem rel_find?_of_forall₂ (h : List.Forall₂ R xs ys) {q : α → Bool} {q' : β → Bool}
    (hq : ∀ a b, R a b → q' b = q a) : Option.Rel R (xs.find? q) (ys.find? q') := by
  induction h with
  | nil => exact .none
  | @cons a b _ _ hab _ ih =>
    rw [List.find?_cons, List.find?_cons, hq a b hab]
    split
    · exact .some hab
    · exact ih

theorem forall₂_filter_of (h : List.Forall₂ R xs ys) {q : α → Bool} {q' : β → Bool}
    (hq : ∀ a b, R a b → q' b = q a) : List.Forall₂ R (xs.filter q) (ys.filter q') := by
  refine List.rel_filter (fun a b hab => ?_) h
  show q a = true ↔ q' b = true
  rw [hq a b hab]

theorem rel_findSome?_of_forall₂ {δ : Type} {S : γ → δ → Prop} (h : List.Forall₂ R xs ys)
    {f : α → Option γ} {g : β → Option δ} (hf : ∀ a b, R a b → Option.Rel S (f a) (g b)) :
    Option.Rel S (xs.findSome? f) (ys.findSome? g) := by
  induction h with
  | nil => exact .none
  | @cons a b _ _ hab _ ih =>
    have hab' := hf a b hab
    rw [List.findSome?_cons, List.findSome?_cons]
    generalize f a = c, g b = d at hab'
    cases hab' with
    | none => exact ih
    | some hcd => exact .some hcd

theorem map_eq_of_forall₂ (h : List.Forall₂ R xs ys) {f : α → γ} {g : β → γ}
    (hf : ∀ a b, R a b → g b = f a) : ys.map g = xs.map f := by
  induction h with
  | nil => rfl
  | @cons a b _ _ hab _ ih => rw [List.map_cons, List.map_cons, hf a b hab, ih]

theorem findSome?_eq_of_forall₂ (h : List.Forall₂ R xs ys) {f : α → Option γ} {g : β → Option γ}
    (hf : ∀ a b, R a b → g b = f a) : ys.findSome? g = xs.findSome? f := by
  have hmap := congrArg (List.findSome? id) (map_eq_of_forall₂ h hf)
  rwa [List.findSome?_map, List.findSome?_map] at hmap

variable {a a' : Option α} {b b' : Option β}

theorem rel_or (h : Option.Rel R a b) (h' : Option.Rel R a' b') :
    Option.Rel R (a.or a') (b.or b') := by
  cases h with
  | none => exact h'
  | some hab => exact .some hab

theorem forall₂_toList (h : Option.Rel R a b) : List.Forall₂ R a.toList b.toList := by
  cases h with
  | none => exact .nil
  | some hab => exact .cons hab .nil

theorem isSome_eq_of_rel (h : Option.Rel R a b) : b.isSome = a.isSome := by
  cases h with
  | none => rfl
  | some _ => rfl

end Relations

/-! ## Places -/

namespace Place

open Node

/-- The place `p'` is what has become of `p`, its path related by `R`. -/
structure Moved (R : List Nat → List Nat → Prop) (p p' : Place) : Prop where
  scope : p'.scope = p.scope
  node : p'.node = p.node.pared
  path : R p.path p'.path

/-- Paths that are related stay so on the way down. -/
def GoesDown (R : List Nat → List Nat → Prop) : Prop :=
  ∀ ⦃q q' : List Nat⦄, R q q' → ∀ i i', R (q ++ [i]) (q' ++ [i'])

namespace Moved

variable {R : List Nat → List Nat → Prop} {p p' : Place} (h : Moved R p p')
include h

theorem tag_eq : p'.tag = p.tag := by rw [tag, h.node, tag_pared, tag]

theorem text_eq : p'.text = p.text := by rw [text, h.node, h.scope, textIn_pared, text]

theorem innerScope_eq : p'.innerScope = p.innerScope := by
  rw [innerScope, h.node, h.scope, innerScope]
  cases p.node <;> rfl

theorem hasClass_eq (token : Text) : p'.node.hasClass token = p.node.hasClass token := by
  rw [h.node, hasClass_pared]

theorem isMainCell_eq : Figure.isMainCell p' = Figure.isMainCell p := by
  rw [Figure.isMainCell, h.tag_eq, h.hasClass_eq, Figure.isMainCell]

theorem isGutter_eq : Figure.isGutter p' = Figure.isGutter p := h.hasClass_eq _

theorem isHighlight_eq : Figure.isHighlight p' = Figure.isHighlight p := by
  rw [Figure.isHighlight, h.tag_eq, h.hasClass_eq, Figure.isHighlight]

end Moved

variable {R : List Nat → List Nat → Prop}

mutual

theorem moved_elementsBelow (hR : GoesDown R) {path path' : List Nat} (h : R path path')
    (scope : Scope) : (n : Node) →
      List.Forall₂ (Moved R) (elementsBelow path scope n) (elementsBelow path' scope n.pared)
  | .element name _ cs => moved_elementsAmong hR (name :: scope) cs fun _ _ => hR h _ _
  | .text _ => .nil
  | .comment _ => .nil
  | .directive _ _ => .nil

theorem moved_elementsAmong (hR : GoesDown R) {path path' : List Nat} {i i' : Nat}
    (scope : Scope) : (ns : List Node) →
      (∀ k, Stays ns k → R (path ++ [i + k]) (path' ++ [i' + rank ns k])) →
        List.Forall₂ (Moved R) (elementsAmong path scope i ns)
          (elementsAmong path' scope i' (paredAll ns))
  | [], _ => .nil
  | n :: ns, h => by
    cases hn : n.isMute with
    | true =>
      have hbelow : elementsBelow (path ++ [i]) scope n = [] := by
        cases n with
        | element name attrs cs => cases hn
        | _ => rfl
      rw [paredAll_cons_of_mute hn, elementsAmong, (not_block_of_mute hn).2.2, hbelow]
      refine moved_elementsAmong hR scope ns fun k hk => ?_
      have hmove := h (k + 1) hk
      rw [rank, if_pos hn, Nat.add_zero] at hmove
      rw [Nat.add_assoc, Nat.add_comm 1 k]
      exact hmove
    | false =>
      have hhere := h 0 (stays_zero_iff.mpr hn)
      rw [paredAll_cons hn, elementsAmong, elementsAmong, isElement_pared]
      refine List.rel_append (List.rel_append ?_ ?_) ?_
      · split
        · exact .cons ⟨rfl, rfl, hhere⟩ .nil
        · exact .nil
      · exact moved_elementsBelow hR hhere scope n
      · refine moved_elementsAmong hR scope ns fun k hk => ?_
        have hmove := h (k + 1) hk
        rw [rank, if_neg (Bool.eq_false_iff.mp hn)] at hmove
        rw [Nat.add_assoc, Nat.add_comm 1 k, Nat.add_assoc, Nat.add_comm 1 (rank ns k)]
        exact hmove

end

/-- What is below `p` has moved to below `p'`. -/
def MovedBelow (R : List Nat → List Nat → Prop) (p p' : Place) : Prop :=
  List.Forall₂ (Moved R) p.descendants p'.descendants

theorem Moved.below (hR : GoesDown R) {p p' : Place} (h : Moved R p p') : MovedBelow R p p' := by
  rw [MovedBelow, descendants, descendants, h.scope, h.node]
  exact moved_elementsBelow hR h.path p.scope p.node

namespace MovedBelow

variable {p p' : Place} (h : MovedBelow R p p')
include h

theorem forall₂_findAll {q : Place → Bool} (hq : ∀ a a', Moved R a a' → q a' = q a) :
    List.Forall₂ (Moved R) (p.findAll q) (p'.findAll q) := forall₂_filter_of h hq

theorem rel_find? {q : Place → Bool} (hq : ∀ a a', Moved R a a' → q a' = q a) :
    Option.Rel (Moved R) (p.find? q) (p'.find? q) := rel_find?_of_forall₂ h hq

theorem rel_findTag? (tag : Text) : Option.Rel (Moved R) (p.findTag? tag) (p'.findTag? tag) :=
  h.rel_find? fun a a' ha => by rw [ha.tag_eq]

end MovedBelow

end Place

/-! ## Code -/

open Place

section Code

variable {R : List Nat → List Nat → Prop}

/-- The text of a code element, or else of the `pre` around it. -/
theorem codeText_moved {code code' : Option Place} (hcode : Option.Rel (Moved R) code code')
    {pre pre' : Place} (h : pre'.text = pre.text) :
    (code'.getD pre').text = (code.getD pre).text := by
  cases hcode with
  | none => exact h
  | some hmoved => exact hmoved.text_eq

theorem detect_moved {ps ps' : List Place} (h : List.Forall₂ (Moved R) ps ps') :
    Language.detect (ps'.map (·.node)) = Language.detect (ps.map (·.node)) := by
  have hof : (ps'.map (·.node)).findSome? Language.ofNode? =
      (ps.map (·.node)).findSome? Language.ofNode? := by
    rw [List.findSome?_map, List.findSome?_map]
    refine findSome?_eq_of_forall₂ h fun p p' hp => ?_
    rw [Function.comp_apply, hp.node, Node.ofNode?_pared, Function.comp_apply]
  rw [Language.detect, hof, Language.detect]

/-- A node that is looked at on its own, wherever it stands. -/
theorem moved_pared (scope : Scope) (n : Node) :
    Moved (fun _ _ => True) ⟨[], scope, n⟩ ⟨[], scope, n.pared⟩ := ⟨rfl, rfl, trivial⟩

theorem movedBelow_pared (scope : Scope) (n : Node) :
    MovedBelow (fun _ _ => True) ⟨[], scope, n⟩ ⟨[], scope, n.pared⟩ :=
  (moved_pared scope n).below fun _ _ _ _ _ => trivial

theorem fencedCode_pared (opts : Options) (scope : Scope) (n : Node) :
    Render.fencedCode opts ⟨[], scope, n.pared⟩ = Render.fencedCode opts ⟨[], scope, n⟩ := by
  have hcode := (movedBelow_pared scope n).rel_findTag? Figure.codeTag
  have hplaces := List.rel_append (forall₂_toList hcode) (.cons (moved_pared scope n) .nil)
  rw [Render.fencedCode, Render.fencedCode, Place.code, Place.code, detect_moved hplaces,
    codeText_moved hcode (moved_pared scope n).text_eq]

namespace Figure

variable (hR : GoesDown R)
include hR

theorem preInside?_moved {ps ps' : List Place} (h : List.Forall₂ (Moved R) ps ps') :
    Option.Rel (Moved R) (preInside? ps) (preInside? ps') :=
  rel_findSome?_of_forall₂ h fun _ _ hp => (hp.below hR).rel_findTag? preTag

theorem codePre?_moved {figure figure' : Place} (h : MovedBelow R figure figure') :
    Option.Rel (Moved R) (codePre? figure) (codePre? figure') := by
  have hcells := h.forall₂_findAll (q := fun p => p.tag == "td".toList) fun a a' ha => by
    rw [ha.tag_eq]
  have hmain := forall₂_filter_of hcells fun a a' ha => ha.isMainCell_eq
  have hbare := forall₂_filter_of hcells fun a a' ha => congrArg (!·) ha.isGutter_eq
  have hhighlight := h.forall₂_findAll fun a a' ha => ha.isHighlight_eq
  exact rel_or (preInside?_moved hR hmain) <| rel_or (preInside?_moved hR hbare) <|
    rel_or (preInside?_moved hR hhighlight) <| h.rel_findTag? preTag

theorem codeLines_moved {pre pre' : Place} (h : Moved R pre pre') :
    codeLines pre' = codeLines pre := by
  have hlines := (h.below hR).forall₂_findAll (q := fun p => p.node.hasClass "line".toList)
    fun a a' ha => ha.hasClass_eq _
  have htexts := map_eq_of_forall₂ (f := lineText) (g := lineText) hlines fun a a' ha => by
    rw [lineText, ha.text_eq, lineText]
  have hnone := congrArg List.isEmpty htexts
  rw [List.isEmpty_map, List.isEmpty_map] at hnone
  have hcode := codeText_moved ((h.below hR).rel_findTag? codeTag) h.text_eq
  rw [codeLines, codeLines]
  simp only [htexts, hnone, hcode]

omit hR in
theorem detectLanguage_pared (scope : Scope) (n : Node) :
    detectLanguage ⟨[], scope, n.pared⟩ = detectLanguage ⟨[], scope, n⟩ := by
  have hbelow := movedBelow_pared scope n
  have hsources : List.Forall₂ (Moved fun _ _ => True) (languageSources ⟨[], scope, n⟩)
      (languageSources ⟨[], scope, n.pared⟩) := by
    unfold languageSources
    refine List.rel_append (List.rel_append (List.rel_append (List.rel_append (List.rel_append
      ?_ ?_) ?_) ?_) ?_) ?_
    · exact forall₂_toList (hbelow.rel_findTag? codeTag)
    · exact forall₂_toList (hbelow.rel_findTag? preTag)
    · exact forall₂_toList (hbelow.rel_find? fun a a' ha => ha.isMainCell_eq)
    · exact forall₂_toList (hbelow.rel_find? fun a a' ha => ha.isHighlight_eq)
    · exact .cons (moved_pared scope n) .nil
    · exact hbelow.forall₂_findAll fun a a' ha => by simp only [ha.node, Node.attribute?_pared]
  have hlanguage := findSome?_eq_of_forall₂ (f := fun p => languageOf? p.node)
    (g := fun p => languageOf? p.node) hsources fun a a' ha => by
      rw [ha.node, Node.languageOf?_pared]
  rw [detectLanguage, hlanguage, detectLanguage]

end Figure

end Code

/-! ## Parts of figures -/

namespace Figure

open Node

/-- Two paths from a figure with children `cs` start at the same child and are equally long. -/
def SameChild (cs : List Node) (q q' : List Nat) : Prop :=
  ∃ i rest rest', Stays cs i ∧ q = i :: rest ∧ q' = rank cs i :: rest' ∧
    rest'.length = rest.length

theorem sameChild_goesDown (cs : List Node) : GoesDown (SameChild cs) := by
  rintro q q' ⟨i, rest, rest', hi, rfl, rfl, hlength⟩ k k'
  refine ⟨i, rest ++ [k], rest' ++ [k'], hi, rfl, rfl, ?_⟩
  rw [List.length_append, List.length_append, hlength]
  rfl

theorem movedBelow_figure (scope : Scope) (name : Text) (attrs : Attributes) (cs : List Node) :
    MovedBelow (SameChild cs) ⟨[], scope, .element name attrs cs⟩
      ⟨[], scope, .element name attrs (paredAll cs)⟩ := by
  refine moved_elementsAmong (sameChild_goesDown cs) (name :: scope) cs fun k hk => ?_
  rw [Nat.zero_add, Nat.zero_add]
  exact ⟨k, [], [], hk, rfl, rfl, rfl⟩

namespace Parts

/-- The parts `parts'` are what has become of `parts` in a figure with children `cs`. -/
structure Moved (cs : List Node) (parts parts' : Parts) : Prop where
  pre : Place.Moved (SameChild cs) parts.pre parts'.pre
  lines : parts'.lines = parts.lines
  caption : Option.Rel (Place.Moved (SameChild cs)) parts.caption parts'.caption

namespace Moved

variable {cs : List Node} {parts parts' : Parts} (h : Moved cs parts parts')
include h

theorem isCaption_rank {i : Nat} (hi : Stays cs i) :
    parts'.isCaption (rank cs i) = parts.isCaption i := by
  have hcaption := h.caption
  unfold isCaption
  generalize parts.caption = c, parts'.caption = c' at hcaption
  cases hcaption with
  | none => rfl
  | @some c c' hc =>
    obtain ⟨k, rest, rest', hk, hpath, hpath', hlength⟩ := hc.path
    show (c'.path == [rank cs i]) = (c.path == [i])
    rw [hpath, hpath', Bool.eq_iff_iff, beq_iff_eq, beq_iff_eq, List.cons.injEq, List.cons.injEq,
      rank_inj hk hi, ← List.length_eq_zero_iff, ← List.length_eq_zero_iff, hlength]

theorem rel_holder? :
    Option.Rel (fun k k' => Stays cs k ∧ k' = rank cs k) parts.holder? parts'.holder? := by
  obtain ⟨k, rest, rest', hk, hpath, hpath', _⟩ := h.pre.path
  rw [holder?, holder?, hpath, hpath']
  dsimp only
  rw [h.isCaption_rank hk]
  split
  · exact .none
  · exact .some ⟨hk, rfl⟩

theorem isBefore_rank {i : Nat} (hi : Stays cs i) :
    parts'.isBefore (rank cs i) = parts.isBefore i := by
  have hholder := h.rel_holder?
  rw [isBefore, isBefore, h.isCaption_rank hi]
  generalize parts.holder? = k, parts'.holder? = k' at hholder
  cases hholder with
  | none => rfl
  | some hk =>
    obtain ⟨hk, rfl⟩ := hk
    rw [Option.all_some, Option.all_some, decide_eq_decide.mpr (rank_lt_iff hi hk)]

theorem isAfter_rank {i : Nat} (hi : Stays cs i) :
    parts'.isAfter (rank cs i) = parts.isAfter i := by
  have hholder := h.rel_holder?
  rw [isAfter, isAfter, h.isCaption_rank hi]
  generalize parts.holder? = k, parts'.holder? = k' at hholder
  cases hholder with
  | none => rfl
  | some hk =>
    obtain ⟨hk, rfl⟩ := hk
    rw [Option.any_some, Option.any_some, decide_eq_decide.mpr (rank_lt_iff hk hi)]

end Moved

end Parts

theorem rel_parts? (scope : Scope) (name : Text) (attrs : Attributes) (cs : List Node) :
    Option.Rel (Parts.Moved cs) (parts? ⟨[], scope, .element name attrs cs⟩)
      (parts? ⟨[], scope, .element name attrs (paredAll cs)⟩) := by
  have hbelow := movedBelow_figure scope name attrs cs
  have hdown := sameChild_goesDown cs
  have hcode : isCode (.element name attrs (paredAll cs)) = isCode (.element name attrs cs) := rfl
  have hpre := codePre?_moved hdown hbelow
  rw [parts?, parts?]
  dsimp only
  rw [hcode]
  split
  · generalize codePre? ⟨[], scope, .element name attrs cs⟩ = pre,
      codePre? ⟨[], scope, .element name attrs (paredAll cs)⟩ = pre' at hpre
    cases hpre with
    | none => exact .none
    | some hmoved =>
      dsimp only
      rw [codeLines_moved hdown hmoved]
      split
      · exact .none
      · exact .some ⟨hmoved, rfl, hbelow.rel_findTag? _⟩
  · exact .none

end Figure

end Hypermark
