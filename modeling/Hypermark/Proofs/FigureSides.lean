import Hypermark.Proofs.CodeSearch
import Hypermark.Proofs.FencedBlocks
import Hypermark.Proofs.SilentBlocks

/-!
# What stands beside the code of a figure

The children of a figure are told apart by the code: exactly one of them holds it, and those before
and after that one are rendered on their own side, each once.  The caption goes to the opening line of
the fence.  It is left out of the sides only as a child of the figure, so a caption that stands deeper
in a child beside the code is rendered a second time.

* `blocks_keep`: the siblings that are admitted are rendered as if there were no others.
* `exists_sides`: the child that holds the code, and those beside it.
* `code_figure_in_order`: what a figure is rendered as, and when its caption stands nowhere else.
-/

namespace Hypermark

open Text

/-! ## Admitted siblings -/

/-- The siblings that are admitted are rendered as if there were no others. -/
theorem Render.blocks_keep (opts : Options) (scope inner : Scope) (keep : Nat → Bool) (i : Nat)
    (pending ns : List Node) :
    blocks opts scope (fun k => keep (i + k)) pending ns = blocks opts scope keepAll pending
      (((Place.siblings [] inner i ns).filter (·.path.all keep)).map (·.node)) := by
  induction ns generalizing i pending with
  | nil => rw [blocks_nil, Place.siblings, List.filter_nil, List.map_nil, blocks_nil]
  | cons n ns ih =>
    have hkeep : (fun k => keep (i + (k + 1))) = fun k => keep (i + 1 + k) := by
      funext k
      rw [Nat.add_right_comm, Nat.add_assoc]
    have hhead : ([] ++ [i]).all keep = keep i := Bool.and_true _
    rw [blocks, hkeep, Place.siblings, List.filter_cons, hhead, Nat.add_zero]
    cases keep i with
    | false => exact ih (i + 1) pending
    | true =>
      have hall : (!keepAll 0) = true ↔ False := by decide
      rw [if_pos rfl, List.map_cons, blocks]
      simp only [ih (i + 1), hall, Bool.not_true, Bool.false_eq_true, if_false]
      rfl

namespace Figure

/-! ## Sides -/

/-- The children of a figure are those before the one that holds the code, that one and those after
it. -/
structure Sides (figure pre : Place) (before : List Place) (holder : Place) (after : List Place) :
    Prop where
  children : figure.children = before ++ holder :: after
  holds : holder.contains pre = true
  apart : ∀ c ∈ before ++ after, c.contains pre = false

def isCaptionOf (figure c : Place) : Bool := (caption? figure).any (·.path == c.path)

/-- Those of some children that are not the caption. -/
def uncaptioned (figure : Place) (cs : List Place) : List Node :=
  (cs.filter (!isCaptionOf figure ·)).map (·.node)

theorem exists_sides {figure pre : Place} (h : pre ∈ figure.descendants) :
    ∃ before holder after, Sides figure pre before holder after := by
  obtain ⟨holder, hmem, hholds⟩ := Place.exists_child_of_mem_descendants h
  obtain ⟨before, after, hsplit⟩ := List.append_of_mem hmem
  refine ⟨before, holder, after, hsplit, hholds, fun c hc => Bool.eq_false_iff.mpr ?_⟩
  intro hcontains
  have horder : figure.children.Pairwise fun c d => c.path < d.path := Place.pairwise_siblings ..
  have hchild : c ∈ figure.children :=
    hsplit ▸ (List.Sublist.append_left (List.sublist_cons_self holder after) before).subset hc
  have hpath := Place.path_eq_of_contains hchild hmem hcontains hholds
  rw [hsplit, List.pairwise_append, List.pairwise_cons] at horder
  rcases List.mem_append.mp hc with hc | hc
  · have hlt := horder.2.2 c hc holder (List.mem_cons_self ..)
    rw [hpath] at hlt
    exact lt_irrefl _ hlt
  · have hlt := horder.2.1.1 c hc
    rw [hpath] at hlt
    exact lt_irrefl _ hlt

section Caption

variable {figure pre holder : Place} {before after : List Place}

theorem isCaptionOf_eq {c : Place} {parts : Parts} (hparts : parts.caption = caption? figure)
    {i : Nat} (hc : c.path = [i]) : parts.isCaption i = isCaptionOf figure c := by
  rw [Parts.isCaption, isCaptionOf, hparts, hc]
  cases caption? figure with
  | none => rfl
  | some f => rfl

/-- The caption stands in a child beside the code unless it is a child of the figure itself or stands
with the code. -/
theorem Sides.caption_beside_iff (h : Sides figure pre before holder after)
    (hroot : figure.path = []) :
    (∃ c ∈ before ++ after, isCaptionOf figure c = false ∧
        ∃ f ∈ caption? figure, c.contains f = true) ↔
      ∃ f ∈ caption? figure, f.path.length ≠ 1 ∧ holder.contains f = false := by
  have hlength : ∀ c ∈ figure.children, c.path.length = 1 := by
    intro c hc
    obtain ⟨j, -, hj⟩ := Place.exists_index_of_mem_siblings hc
    rw [hj, hroot]
    rfl
  have hholder : holder ∈ figure.children := h.children ▸ List.mem_append_right _ (.head _)
  have hside : ∀ c ∈ before ++ after, c ∈ figure.children := fun c hc =>
    h.children ▸ (List.Sublist.append_left (List.sublist_cons_self holder after) before).subset hc
  constructor
  · rintro ⟨c, hc, hnot, f, hf, hcf⟩
    refine ⟨f, hf, fun hone => ?_, Bool.eq_false_iff.mpr fun hheld => ?_⟩
    · have hpath : c.path = f.path := (List.isPrefixOf_iff_prefix.mp hcf).eq_of_length
        ((hlength c (hside c hc)).trans hone.symm)
      rw [isCaptionOf, Option.mem_def.mp hf, Option.any_some, hpath, beq_self_eq_true] at hnot
      cases hnot
    · have hpath := Place.path_eq_of_contains (hside c hc) hholder hcf hheld
      have hapart := h.apart c hc
      rw [Place.contains, hpath] at hapart
      exact absurd h.holds (Bool.eq_false_iff.mp hapart)
  · rintro ⟨f, hf, hone, hnot⟩
    obtain ⟨c, hc, hcf⟩ := Place.exists_child_of_mem_descendants (List.mem_of_find?_eq_some hf)
    refine ⟨c, ?_, Bool.eq_false_iff.mpr fun hcaption => hone ?_, f, hf, hcf⟩
    · rw [h.children] at hc
      rcases List.mem_append.mp hc with hc | hc
      · exact List.mem_append_left _ hc
      rcases List.mem_cons.mp hc with rfl | hc
      · exact absurd hcf (Bool.eq_false_iff.mp hnot)
      · exact List.mem_append_right _ hc
    · rw [isCaptionOf, Option.mem_def.mp hf, Option.any_some, beq_iff_eq] at hcaption
      rw [hcaption]
      exact hlength c hc

end Caption

section Positions

variable {figure pre holder : Place} {before after : List Place}

/-- The positions of the children before the code are less than that of its holder, those of the
children after it are greater. -/
theorem Sides.exists_position (h : Sides figure pre before holder after) (hroot : figure.path = []) :
    ∃ k, holder.path = [k] ∧ (∀ c ∈ before, ∃ j < k, c.path = [j]) ∧
      ∀ c ∈ after, ∃ j > k, c.path = [j] := by
  have horder : figure.children.Pairwise fun c d => c.path < d.path := Place.pairwise_siblings ..
  have hposition : ∀ c ∈ figure.children, ∃ j, c.path = [j] := by
    intro c hc
    obtain ⟨j, -, hj⟩ := Place.exists_index_of_mem_siblings hc
    exact ⟨j, by rw [hj, hroot]; rfl⟩
  have hindex : ∀ j k : Nat, [j] < [k] → j < k := by
    intro j k hlt
    rcases List.cons_lt_cons_iff.mp hlt with hlt | ⟨-, hlt⟩
    · exact hlt
    · exact absurd hlt (List.not_lt_nil _)
  rw [h.children, List.pairwise_append, List.pairwise_cons] at horder
  rw [h.children, List.forall_mem_append, List.forall_mem_cons] at hposition
  obtain ⟨hbefore, ⟨k, hk⟩, hafter⟩ := hposition
  refine ⟨k, hk, fun c hc => ?_, fun c hc => ?_⟩
  · obtain ⟨j, hj⟩ := hbefore c hc
    have hlt := horder.2.2 c hc holder (List.mem_cons_self ..)
    rw [hj, hk] at hlt
    exact ⟨j, hindex _ _ hlt, hj⟩
  · obtain ⟨j, hj⟩ := hafter c hc
    have hlt := horder.2.1.1 c hc
    rw [hj, hk] at hlt
    exact ⟨j, hindex _ _ hlt, hj⟩

/-- The children that are rendered before the code are those that stand before its holder, and the
same after it, the caption aside. -/
theorem Sides.filter_children (h : Sides figure pre before holder after) (hroot : figure.path = [])
    (hcaption : ∀ f ∈ caption? figure, f.contains pre = false) (ls : List Text) :
    let parts : Parts := ⟨pre, ls, caption? figure⟩
    figure.children.filter (·.path.all parts.isBefore) = before.filter (!isCaptionOf figure ·) ∧
      figure.children.filter (·.path.all parts.isAfter) = after.filter (!isCaptionOf figure ·) := by
  intro parts
  obtain ⟨k, hk, hbefore, hafter⟩ := h.exists_position hroot
  have hheld : parts.holder? = some k := by
    have hnot : isCaptionOf figure holder = false := by
      refine (Option.any_eq_false _ _).mpr fun f hf => Bool.eq_false_iff.mpr fun hpath => ?_
      have hapart := hcaption f hf
      rw [Place.contains, beq_iff_eq.mp hpath] at hapart
      exact Bool.eq_false_iff.mp hapart h.holds
    obtain ⟨rest, hrest⟩ : holder.path <+: pre.path := List.isPrefixOf_iff_prefix.mp h.holds
    rw [hk] at hrest
    have hpath : parts.pre.path = k :: rest := hrest.symm
    rw [Parts.holder?, hpath]
    dsimp only
    rw [isCaptionOf_eq rfl hk, hnot]
    rfl
  -- a child is on the side that its position says
  have hside : ∀ {c : Place} {j : Nat}, c.path = [j] →
      c.path.all parts.isBefore = (!isCaptionOf figure c && decide (j < k)) ∧
        c.path.all parts.isAfter = (!isCaptionOf figure c && decide (k < j)) := by
    intro c j hj
    rw [hj, List.all_cons, List.all_nil, Bool.and_true, List.all_cons, List.all_nil, Bool.and_true,
      Parts.isBefore, Parts.isAfter, hheld, isCaptionOf_eq rfl hj]
    exact ⟨rfl, rfl⟩
  have hleft : ∀ c ∈ before, c.path.all parts.isBefore = (!isCaptionOf figure c) ∧
      ¬c.path.all parts.isAfter = true := by
    intro c hc
    obtain ⟨j, hj, hpath⟩ := hbefore c hc
    rw [(hside hpath).1, (hside hpath).2, decide_eq_true hj,
      decide_eq_false (Nat.not_lt.mpr (Nat.le_of_lt hj)), Bool.and_true, Bool.and_false]
    exact ⟨rfl, Bool.false_ne_true⟩
  have hmiddle : ¬holder.path.all parts.isBefore = true ∧ ¬holder.path.all parts.isAfter = true := by
    rw [(hside hk).1, (hside hk).2, decide_eq_false (Nat.lt_irrefl k), Bool.and_false]
    exact ⟨Bool.false_ne_true, Bool.false_ne_true⟩
  have hright : ∀ c ∈ after, ¬c.path.all parts.isBefore = true ∧
      c.path.all parts.isAfter = (!isCaptionOf figure c) := by
    intro c hc
    obtain ⟨j, hj, hpath⟩ := hafter c hc
    rw [(hside hpath).1, (hside hpath).2, decide_eq_true hj,
      decide_eq_false (Nat.not_lt.mpr (Nat.le_of_lt hj)), Bool.and_true, Bool.and_false]
    exact ⟨Bool.false_ne_true, rfl⟩
  have hbeforeLeft : before.filter (·.path.all parts.isBefore) =
      before.filter (!isCaptionOf figure ·) := List.filter_congr fun c hc => (hleft c hc).1
  have hbeforeRight : (holder :: after).filter (·.path.all parts.isBefore) = [] :=
    List.filter_eq_nil_iff.mpr <| List.forall_mem_cons.mpr ⟨hmiddle.1, fun c hc => (hright c hc).1⟩
  have hafterLeft : (before ++ [holder]).filter (·.path.all parts.isAfter) = [] :=
    List.filter_eq_nil_iff.mpr <| List.forall_mem_append.mpr
      ⟨fun c hc => (hleft c hc).2, (List.forall_mem_singleton ..).mpr hmiddle.2⟩
  have hafterRight : after.filter (·.path.all parts.isAfter) =
      after.filter (!isCaptionOf figure ·) := List.filter_congr fun c hc => (hright c hc).2
  rw [h.children]
  constructor
  · rw [List.filter_append, hbeforeLeft, hbeforeRight, List.append_nil]
  · rw [← List.singleton_append, ← List.append_assoc, List.filter_append, hafterLeft, hafterRight,
      List.nil_append]

end Positions

theorem parts?_eq_some {figure pre : Place} (hcode : isCode figure.node = true)
    (hpre : codePre? figure = some pre) (hlines : ∃ l ∈ codeLines pre, allBlank l = false) :
    parts? figure = some ⟨pre, codeLines pre, caption? figure⟩ := by
  obtain ⟨l, hl, -⟩ := hlines
  have hne : (codeLines pre).isEmpty = false := by
    rw [List.isEmpty_eq_false_iff]
    exact List.ne_nil_of_mem hl
  rw [parts?, if_pos hcode, hpre]
  dsimp only
  rw [hne]
  rfl

theorem mem_descendants_of_codePre? {figure pre : Place} (h : codePre? figure = some pre) :
    pre ∈ figure.descendants :=
  (List.mem_filter.mp (codePre?_eq_some_iff.mp h).1).1

end Figure

/-! ## Figures -/

namespace Render

theorem part_eq_filter (t : Text) : part t = [t].filter (!allBlank ·) := by
  rw [part, List.filter_singleton]
  cases allBlank t with
  | false => rfl
  | true => rfl

/-- Siblings on both sides of a block that is not blank. -/
theorem surrounded_siblings (opts : Options) (scope : Scope) (above below : List Node) {t : Text}
    (ht : allBlank t = false) :
    surrounded (blocks opts scope keepAll [] above) (blocks opts scope keepAll [] below) t =
      (siblings opts scope above).bind fun above => (siblings opts scope below).bind fun below =>
        Traced.pure (joinBlocks ([above, t, below].filter (!allBlank ·))) := by
  have hjoin : ∀ above below : Text,
      part above ++ [t] ++ part below = [above, t, below].filter (!allBlank ·) := by
    intro above below
    have hblock : [t] = [t].filter (!allBlank ·) := by
      rw [List.filter_singleton, ht]
      rfl
    rw [part_eq_filter, part_eq_filter, hblock, ← List.filter_append, ← List.filter_append]
    rfl
  have hsiblings : ∀ ns, siblings opts scope ns =
      (blocks opts scope keepAll [] ns).bind (Traced.pure ∘ joinBlocks) := fun _ => rfl
  rw [hsiblings, hsiblings, surrounded]
  simp only [Traced.bind_assoc, Traced.pure_bind, Function.comp, hjoin]

end Render

/-- A figure whose fence fits is rendered as its code, fenced, between the children before the one
that holds the code and those after it, each of which is rendered once and on its own side.  The
caption is no child that is rendered, and it stands in none exactly unless it is below a child of the
figure other than the one that holds the code. -/
theorem code_figure_in_order (opts : Options) (scope : Scope) (name : Text) (attrs : Attributes)
    (cs : List Node) (pre : Place) :
    let figure : Place := ⟨[], scope, .element name attrs cs⟩
    let parts : Figure.Parts := ⟨pre, Figure.codeLines pre, Figure.caption? figure⟩
    figure.node.role = .figure → Figure.isCode figure.node = true →
    Figure.codePre? figure = some pre → (∃ l ∈ Figure.codeLines pre, allBlank l = false) →
    (∀ f ∈ Figure.caption? figure, f.contains pre = false) →
    ∃ before holder after caption language, Figure.Sides figure pre before holder after ∧
      (Render.figureCaption parts).outcome = .ok caption ∧
      (if opts.detectLanguage then Figure.detectLanguage figure
        else Traced.pure []).outcome = .ok language ∧
      (Render.block opts scope figure.node).outcome = (do
        (Render.fence opts parts.code).outcome
        let above ← (Render.siblings opts (name :: scope) (Figure.uncaptioned figure before)).outcome
        let below ← (Render.siblings opts (name :: scope) (Figure.uncaptioned figure after)).outcome
        let code := Markdown.fencedBlock opts.minFence (Figure.Parts.info language caption) parts.code
        return joinBlocks ([above, code, below].filter (!allBlank ·))) ∧
      ((∃ c ∈ before ++ after, Figure.isCaptionOf figure c = false ∧
          ∃ f ∈ Figure.caption? figure, c.contains f = true) ↔
        ∃ f ∈ Figure.caption? figure, f.path.length ≠ 1 ∧ holder.contains f = false) := by
  intro figure parts hrole hcode hpre hlines hcaption
  obtain ⟨before, holder, after, hsides⟩ :=
    Figure.exists_sides (Figure.mem_descendants_of_codePre? hpre)
  obtain ⟨t, ht⟩ := Render.figureCaption_outcome parts
  obtain ⟨language, -, hlanguage⟩ := Render.language_outcome opts figure
  refine ⟨before, holder, after, _, language, hsides, ht, hlanguage, ?_,
    hsides.caption_beside_iff rfl⟩
  have hparts : Figure.parts? figure = some parts := Figure.parts?_eq_some hcode hpre hlines
  have hkeep : ∀ keep, Render.blocks opts (name :: scope) keep [] cs =
      Render.blocks opts (name :: scope) Render.keepAll []
        ((figure.children.filter (·.path.all keep)).map (·.node)) := by
    intro keep
    have hzero : (fun k => keep (0 + k)) = keep := funext fun k => congrArg keep (Nat.zero_add k)
    have hblocks := Render.blocks_keep opts (name :: scope) (name :: scope) keep 0 [] cs
    rwa [hzero] at hblocks
  obtain ⟨habove, hbelow⟩ := hsides.filter_children rfl hcaption (Figure.codeLines pre)
  have hfence := Markdown.not_allBlank_fencedBlock opts.minFence
    (Figure.Parts.info language (collapseSpaces t)) parts.code
  rw [Render.block_codeFigure hrole hparts, hkeep, hkeep, habove, hbelow,
    Render.codeFigure_outcome_of ht hlanguage]
  refine (Traced.outcome_bind _ _).trans (congrArg _ (funext fun _ => ?_))
  refine (congrArg Traced.outcome (Render.surrounded_siblings opts _ _ _ hfence)).trans ?_
  refine (Traced.outcome_bind _ _).trans (congrArg _ (funext fun above => ?_))
  exact Traced.outcome_bind _ _

/-- A paragraph on each side of the code, and the caption at the end. -/
def Figure.listing : List Node := [
  .element "p".toList [] [.text "a".toList],
  .element "div".toList [("class".toList, some "highlight".toList)]
    [.element "pre".toList [] [.text "x\n".toList]],
  .element "p".toList [] [.text "b".toList],
  .element "figcaption".toList [] [.text "c".toList]]

theorem code_between_paragraphs :
    let figure : Place := ⟨[], [Place.documentTag],
      .element "figure".toList [("class".toList, some "code".toList)] Figure.listing⟩
    figure.node.role = .figure ∧
      (Render.block Options.standard [Place.documentTag] figure.node).outcome =
        .ok "a\n\n```c\nx\n```\n\nb".toList ∧
      ∃ code before holder after, Figure.codePre? figure = some code ∧
        Figure.Sides figure code before holder after := by
  refine ⟨rfl, rfl, ⟨[1, 0], ["div".toList, "figure".toList, Place.documentTag],
    .element "pre".toList [] [.text "x\n".toList]⟩, ?_⟩
  obtain ⟨before, holder, after, -, -, hsides, -⟩ :=
    code_figure_in_order Options.standard [Place.documentTag] "figure".toList
      [("class".toList, some "code".toList)] Figure.listing _ rfl rfl rfl
      ⟨"x".toList, .head _, rfl⟩ fun f hf => by obtain rfl := Option.some.inj hf; rfl
  exact ⟨before, holder, after, rfl, hsides⟩

/-- The caption stands in a container beside the code, and its text comes out twice. -/
theorem wrapped_caption_shows_twice :
    let caption := Node.element "figcaption".toList [] [.text "c".toList]
    let pre := Node.element "pre".toList [] [.text "x".toList]
    let content := Node.element "figure".toList [("class".toList, some "code".toList)]
      [.element "div".toList [] [caption], pre]
    let figure : Place := ⟨[], [Place.documentTag], content⟩
    Figure.isCode content = true ∧
      Figure.codePre? figure = some ⟨[1], ["figure".toList, Place.documentTag], pre⟩ ∧
      Figure.caption? figure =
        some ⟨[0, 0], ["div".toList, "figure".toList, Place.documentTag], caption⟩ ∧
      (convertTree Options.standard [content]).outcome = .ok "c\n\n```c\nx\n```".toList :=
  ⟨rfl, rfl, rfl, rfl⟩

end Hypermark
