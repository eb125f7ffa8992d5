import Hypermark.Convert
import Hypermark.Proofs.DocumentOrder

/-!
# The search for the code of a figure

The code of a figure is looked for in four kinds of places, one after the other: main cells, cells
that are no gutter, highlighted blocks, and anywhere.  Each search takes the first `pre` in the first
place that has one.  Since places are nested or one after the other, that is the first `pre` of all
that stand in such a place, however they are nested.

So the searches rank the `pre` elements, first by the best kind of place that they stand in and then
by document order.  A kind of place says nothing about gutters but for the cell that it looks at
itself, so a `pre` of a gutter may come first.

* `finds_preInside?`: what one of the searches finds.
* `codePre?_eq_some_iff`: what all of them find.
* `code_outside_gutters_iff`: when that is no gutter.
-/

namespace Hypermark.Figure

open Place

/-! ## Kinds of places -/

/-- The `pre` elements of a figure. -/
def pres (figure : Place) : List Place := figure.findAll fun p => p.tag == preTag

/-- The place stands in an element of the figure that `q` admits. -/
def Within (figure : Place) (q : Place → Bool) (p : Place) : Prop :=
  ∃ c ∈ figure.findAll q, p ∈ c.descendants

def isCell (p : Place) : Bool := p.tag == "td".toList

/-- The place stands in a cell of line numbers. -/
def InGutter (figure : Place) : Place → Prop := Within figure fun c => isCell c && isGutter c

/-- The place stands where the search number `k` looks. -/
def Suits (figure : Place) : Nat → Place → Prop
  | 0 => Within figure isMainCell
  | 1 => Within figure fun c => isCell c && !isGutter c
  | 2 => Within figure isHighlight
  | _ => fun _ => True

/-- The place `p` is come across before `p'`: by a search that comes earlier, or by the same one
earlier in the document. -/
def Ahead (figure p p' : Place) : Prop :=
  ∃ k, Suits figure k p ∧ (∀ j < k, ¬Suits figure j p') ∧ (Suits figure k p' → p.path < p'.path)

theorem Ahead.asymm {figure p p' : Place} (h : Ahead figure p p') : ¬Ahead figure p' p := by
  rintro ⟨k', hk', hbefore', horder'⟩
  obtain ⟨k, hk, hbefore, horder⟩ := h
  rcases Nat.lt_trichotomy k k' with hlt | rfl | hlt
  · exact hbefore' k hlt hk
  · exact lt_asymm (horder hk') (horder' hk)
  · exact hbefore k' hlt hk'

/-! ## One search -/

/-- The first `pre` of the figure with `P` was found, or there is none. -/
def Finds (figure : Place) (P : Place → Prop) : Option Place → Prop
  | some r => r ∈ pres figure ∧ P r ∧ ∀ p ∈ pres figure, P p → r.path ≤ p.path
  | none => ∀ p ∈ pres figure, ¬P p

/-- What goes on from a path comes before all that comes later and does not go on from it. -/
theorem lt_of_isPrefix_of_lt {a b l : List Nat} (hl : a <+: l) (hlt : a < b) (hb : ¬a <+: b) :
    l < b := by
  induction hlt generalizing l with
  | nil => exact absurd (List.nil_prefix) hb
  | @rel x as y bs hxy =>
    obtain ⟨rest, rfl⟩ := hl
    exact List.Lex.rel hxy
  | @cons x as bs _ ih =>
    obtain ⟨rest, rfl⟩ := hl
    refine List.Lex.cons (ih (List.prefix_append as rest) fun h => hb ?_)
    exact (List.prefix_cons_inj x).mpr h

theorem mem_pres_of_findTag? {c r : Place} (h : c.findTag? preTag = some r) : r ∈ pres c := by
  have hfind : c.descendants.find? (fun p : Place => p.tag == preTag) = some r := h
  have htag := List.find?_some hfind
  exact List.mem_filter.mpr ⟨List.mem_of_find?_eq_some hfind, htag⟩

theorem pres_subset {figure c p : Place} (hc : c ∈ figure.descendants) (hp : p ∈ pres c) :
    p ∈ pres figure :=
  List.mem_filter.mpr ⟨mem_descendants_trans hc (List.mem_filter.mp hp).1, (List.mem_filter.mp hp).2⟩

theorem finds_preInside? (figure : Place) (q : Place → Bool) :
    Finds figure (Within figure q) (preInside? (figure.findAll q)) := by
  cases hfound : preInside? (figure.findAll q) with
  | none =>
    rintro p hp ⟨c, hc, hpc⟩
    have hnone := List.findSome?_eq_none_iff.mp hfound c hc
    exact List.find?_eq_none.mp hnone p hpc (List.mem_filter.mp hp).2
  | some r =>
    obtain ⟨before, c, after, hsplit, hr, hbefore⟩ := List.findSome?_eq_some_iff.mp hfound
    have hc : c ∈ figure.findAll q := hsplit ▸ List.mem_append_right _ (List.mem_cons_self ..)
    have hcbelow := (List.mem_filter.mp hc).1
    have hrc : r ∈ c.descendants := List.mem_of_find?_eq_some hr
    refine ⟨pres_subset hcbelow (mem_pres_of_findTag? hr), ⟨c, hc, hrc⟩, ?_⟩
    rintro p hp ⟨d, hd, hpd⟩
    obtain ⟨hpbelow, hptag⟩ := List.mem_filter.mp hp
    rw [hsplit] at hd
    rcases List.mem_append.mp hd with hd | hd
    · -- the places before have no `pre` in them
      exact absurd hptag (List.find?_eq_none.mp (hbefore d hd) p hpd)
    rcases List.mem_cons.mp hd with rfl | hd
    · exact path_le_of_find? hr hpd hptag
    have hcd : c.path < d.path := by
      have hpairwise := figure.pairwise_path_lt.filter q
      rw [show figure.descendants.filter q = before ++ c :: after from hsplit,
        List.pairwise_append, List.pairwise_cons] at hpairwise
      exact hpairwise.2.1.1 d hd
    have hdp : d.path < p.path := by
      obtain ⟨j, hj⟩ := exists_index_of_mem_elementsBelow hpd
      exact path_lt_of_isPrefix hj
    by_cases hprefix : c.path <+: p.path
    · -- the later place is inside of the one that the code was found in
      rcases mem_descendants_of_isPrefix hcbelow hpbelow hprefix with rfl | hpc
      · exact absurd (lt_trans hcd hdp) (lt_irrefl _)
      · exact path_le_of_find? hr hpc hptag
    · have hcr := isPrefixOf_of_mem_elementsBelow c.path c.scope c.node r hrc
      exact le_of_lt (lt_of_isPrefix_of_lt hcr (lt_trans hcd hdp) hprefix)

theorem finds_anywhere (figure : Place) : Finds figure (fun _ => True) (figure.findTag? preTag) := by
  cases hfound : figure.findTag? preTag with
  | none =>
    intro p hp _
    exact List.find?_eq_none.mp hfound p (List.mem_filter.mp hp).1 (List.mem_filter.mp hp).2
  | some r =>
    refine ⟨mem_pres_of_findTag? hfound, trivial, fun p hp _ => ?_⟩
    exact path_le_of_find? hfound (List.mem_filter.mp hp).1 (List.mem_filter.mp hp).2

/-! ## All searches -/

/-- From search number `k` on, the code is found by the first search that finds anything. -/
def FindsFrom (figure : Place) (k : Nat) : Option Place → Prop
  | some r => ∃ l, k ≤ l ∧ Finds figure (Suits figure l) (some r) ∧
      ∀ j, k ≤ j → j < l → ∀ p ∈ pres figure, ¬Suits figure j p
  | none => pres figure = []

theorem FindsFrom.or {figure : Place} {k : Nat} {found rest : Option Place}
    (h : Finds figure (Suits figure k) found) (hrest : FindsFrom figure (k + 1) rest) :
    FindsFrom figure k (found.or rest) := by
  cases found with
  | some r =>
    refine ⟨k, Nat.le_refl k, h, fun j hj hlt => ?_⟩
    omega
  | none =>
    cases rest with
    | none => exact hrest
    | some r =>
      obtain ⟨l, hl, hfinds, hbefore⟩ := hrest
      refine ⟨l, Nat.le_of_succ_le hl, hfinds, fun j hj hlt => ?_⟩
      rcases Nat.eq_or_lt_of_le hj with rfl | hlt'
      · exact h
      · exact hbefore j hlt' hlt

theorem findsFrom_codePre? (figure : Place) : FindsFrom figure 0 (codePre? figure) := by
  have hlast : FindsFrom figure 3 (figure.findTag? preTag) := by
    have hfinds := finds_anywhere figure
    cases hfound : figure.findTag? preTag with
    | none =>
      rw [hfound] at hfinds
      exact List.eq_nil_iff_forall_not_mem.mpr fun p hp => hfinds p hp trivial
    | some r =>
      rw [hfound] at hfinds
      exact ⟨3, Nat.le_refl 3, hfinds, fun j hj hlt => by omega⟩
  have hmain : (figure.findAll isCell).filter isMainCell = figure.findAll isMainCell := by
    rw [findAll, findAll, List.filter_filter]
    refine List.filter_congr fun c _ => ?_
    rw [isMainCell, isCell]
    cases c.tag == "td".toList
    · rfl
    · rw [Bool.and_true]
  have hcell : (figure.findAll isCell).filter (!isGutter ·) =
      figure.findAll fun c => isCell c && !isGutter c := by
    rw [findAll, findAll, List.filter_filter]
    exact List.filter_congr fun c _ => Bool.and_comm _ _
  have hsearches : codePre? figure = (preInside? (figure.findAll isMainCell)).or
      ((preInside? (figure.findAll fun c => isCell c && !isGutter c)).or
        ((preInside? (figure.findAll isHighlight)).or (figure.findTag? preTag))) := by
    rw [← hmain, ← hcell]
    rfl
  rw [hsearches]
  exact .or (finds_preInside? figure _)
    (.or (finds_preInside? figure _) (.or (finds_preInside? figure _) hlast))

/-- The code is the `pre` that is come across before all others. -/
theorem codePre?_eq_some_iff {figure r : Place} : codePre? figure = some r ↔
    r ∈ pres figure ∧ ∀ p ∈ pres figure, p = r ∨ Ahead figure r p := by
  have hahead : ∀ r, codePre? figure = some r →
      r ∈ pres figure ∧ ∀ p ∈ pres figure, p = r ∨ Ahead figure r p := by
    intro r hr
    have hfinds := findsFrom_codePre? figure
    rw [hr] at hfinds
    obtain ⟨k, _, ⟨hmem, hsuits, hleast⟩, hbefore⟩ := hfinds
    refine ⟨hmem, fun p hp => ?_⟩
    by_cases heq : p = r
    · exact .inl heq
    refine .inr ⟨k, hsuits, fun j hj => hbefore j (Nat.zero_le j) hj p hp, fun hk => ?_⟩
    refine lt_of_le_of_ne (hleast p hp hk) fun hpath => heq ?_
    exact eq_of_path_eq (List.mem_filter.mp hp).1 (List.mem_filter.mp hmem).1 hpath.symm
  refine ⟨hahead r, fun ⟨hmem, hfirst⟩ => ?_⟩
  cases hfound : codePre? figure with
  | none =>
    have hfinds := findsFrom_codePre? figure
    rw [hfound] at hfinds
    rw [show pres figure = [] from hfinds] at hmem
    cases hmem
  | some r' =>
    obtain ⟨hmem', hfirst'⟩ := hahead r' hfound
    rcases hfirst r' hmem' with rfl | hr
    · rfl
    · rcases hfirst' r hmem with rfl | hr'
      · rfl
      · exact absurd hr' hr.asymm

/-- Where some `pre` stands in no gutter, the code is no gutter exactly unless the search comes across
a `pre` of a gutter before all that stand in none. -/
theorem code_outside_gutters_iff (figure : Place)
    (h : ∃ p ∈ pres figure, ¬InGutter figure p) :
    (∃ p, codePre? figure = some p ∧ ¬InGutter figure p) ↔
      ¬∃ g ∈ pres figure, InGutter figure g ∧
        ∀ p ∈ pres figure, ¬InGutter figure p → Ahead figure g p := by
  constructor
  · rintro ⟨r, hr, hclean⟩ ⟨g, hg, hgutter, hahead⟩
    obtain ⟨hmem, hfirst⟩ := codePre?_eq_some_iff.mp hr
    rcases hfirst g hg with rfl | hrg
    · exact hclean hgutter
    · exact hrg.asymm (hahead r hmem hclean)
  · intro hnone
    obtain ⟨p, hp, _⟩ := h
    cases hfound : codePre? figure with
    | none =>
      have hfinds := findsFrom_codePre? figure
      rw [hfound] at hfinds
      rw [show pres figure = [] from hfinds] at hp
      cases hp
    | some r =>
      refine ⟨r, rfl, fun hgutter => hnone ?_⟩
      obtain ⟨hmem, hfirst⟩ := codePre?_eq_some_iff.mp hfound
      refine ⟨r, hmem, hgutter, fun p hp hclean => (hfirst p hp).resolve_left ?_⟩
      rintro rfl
      exact hclean hgutter

/-- A cell of line numbers beside the cell of the code. -/
def numbered : List Node := [.element "tr".toList [] [
  .element "td".toList [("class".toList, some "line-numbers".toList)]
    [.element "pre".toList [] [.text "1".toList]],
  .element "td".toList [] [.element "pre".toList [] [.text "x".toList]]]]

/-- The line numbers beside the code are skipped. -/
theorem code_found_beside_numbers :
    let figure : Place := ⟨[], [], .element "figure".toList [("class".toList, some "code".toList)]
      [.element "table".toList [] numbered]⟩
    (∃ p ∈ pres figure, ¬InGutter figure p) ∧
      ∃ p, codePre? figure = some p ∧ ¬InGutter figure p := by
  intro figure
  let code : Place := ⟨[0, 0, 1, 0], ["td", "tr", "table", "figure"].map String.toList,
    .element "pre".toList [] [.text "x".toList]⟩
  let cell : Place := ⟨[0, 0, 1], ["tr", "table", "figure"].map String.toList,
    .element "td".toList [] [code.node]⟩
  have hcode : code ∈ pres figure := .tail _ (.head _)
  have hclean : ¬InGutter figure code := by
    rintro ⟨c, hc, hp⟩
    obtain rfl := List.mem_singleton.mp hc
    exact absurd (congrArg path (List.mem_singleton.mp hp)) (by decide)
  refine ⟨⟨code, hcode, hclean⟩, (code_outside_gutters_iff figure ⟨code, hcode, hclean⟩).mpr ?_⟩
  rintro ⟨g, hg, hgutter, hahead⟩
  -- the code stands in a cell that is no gutter, the line numbers in none
  refine (hahead code hcode hclean).asymm ⟨1, ⟨cell, .head _, .head _⟩, ?_, ?_⟩
  · intro j hj hsuits
    obtain rfl := Nat.lt_one_iff.mp hj
    obtain ⟨c, hc, -⟩ := hsuits
    cases hc
  · rintro ⟨c, hc, hp⟩
    obtain rfl := List.mem_singleton.mp hc
    obtain rfl := List.mem_singleton.mp hp
    exact absurd hgutter hclean

/-- The line numbers and the code inside of a cell: the first `pre` of that cell is a gutter. -/
theorem code_missed_in_nested_cells :
    let content : Node := .element "figure".toList [("class".toList, some "code".toList)]
      [.element "table".toList [] [.element "tr".toList [] [.element "td".toList []
        [.element "table".toList [] numbered]]]]
    let figure : Place := ⟨[], [], content⟩
    (∃ p ∈ pres figure, ¬InGutter figure p) ∧
      (∃ p, codePre? figure = some p ∧ InGutter figure p) ∧
      (convertTree Options.standard [content]).outcome = .ok "```\n1\n```".toList := by
  intro content figure
  refine ⟨⟨_, .tail _ (.head _), ?_⟩, ⟨_, rfl, ⟨_, .head _, .head _⟩⟩, rfl⟩
  rintro ⟨c, hc, hp⟩
  obtain rfl := List.mem_singleton.mp hc
  exact absurd (congrArg path (List.mem_singleton.mp hp)) (by decide)

end Hypermark.Figure
