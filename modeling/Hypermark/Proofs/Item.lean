import Hypermark.Markdown.ListItem
import Hypermark.Proofs.Outcome

/-!
# The marker line of an item

The segments of an item are rendered in order, some of them while the marker line is looked for and
the others afterwards.  `Taken` says what becomes of the texts of the first ones: all are empty but
for the last, which goes on the marker line or is held for the lines below.

* `leading_outcome`: what the search for the marker line takes.
* `renderItem_outcome`: every segment is rendered once and goes into the item.
* `renderItem_butIdle`: runs that come to nothing make no difference to an item.
-/

namespace Hypermark

/-- The same segments, but for runs of the first ones that come to nothing. -/
inductive Segment.ButIdle : List Segment → List Segment → Prop
  | nil : ButIdle [] []
  | idle {s : Segment} {ss ss' : List Segment} : s.kind = .inline →
      s.rendering = Traced.pure [] → ButIdle ss ss' → ButIdle (s :: ss) ss'
  | cons {s s' : Segment} {ss ss' : List Segment} : s'.kind = s.kind →
      s'.rendering = s.rendering → ButIdle ss ss' → ButIdle (s :: ss) (s' :: ss')

theorem Segment.ButIdle.append {xs xs' ys ys' : List Segment} (hx : ButIdle xs xs')
    (hy : ButIdle ys ys') : ButIdle (xs ++ ys) (xs' ++ ys') := by
  induction hx with
  | nil => exact hy
  | idle hkind hnothing _ ih => exact .idle hkind hnothing ih
  | cons hkind hrendering _ ih => exact .cons hkind hrendering ih

namespace Markdown

open Traced

/-- The texts of segments that were rendered. -/
def Rendered (segments : List Segment) (texts : List Text) : Prop :=
  List.Forall₂ (fun s t => s.rendering.outcome = .ok t) segments texts

/-- The texts of the first segments, the text of the marker line and the text held back. -/
inductive Taken : List Text → Text → Option Text → Prop
  | nothing : Taken [] [] none
  | line (t : Text) : Taken [t] t none
  | trimmed (t : Text) : Taken [t] (Text.trim t) none
  | held (t : Text) : Taken [t] [] (some t)
  | empty {ts : List Text} {text : Text} {held : Option Text} :
      Taken ts text held → Taken ([] :: ts) text held

theorem leading_outcome {segments : List Segment} {first : Leading}
    (h : (leading segments).outcome = .ok first) :
    ∃ done texts, segments = done ++ first.rest ∧ Rendered done texts ∧
      Taken texts first.text first.held := by
  induction segments with
  | nil =>
    obtain rfl := Except.ok.inj h
    exact ⟨[], [], rfl, .nil, .nothing⟩
  | cons s rest ih =>
    rw [leading] at h
    cases hk : s.kind with
    | nestedList =>
      rw [hk] at h
      obtain rfl := Except.ok.inj h
      exact ⟨[], [], rfl, .nil, .nothing⟩
    | inline =>
      rw [hk] at h
      simp only [bind_outcome_eq_ok_iff] at h
      obtain ⟨t, ht, h⟩ := h
      split at h
      · rename_i he
        rw [List.isEmpty_iff] at he
        obtain ⟨done, texts, rfl, hdone, htaken⟩ := ih h
        exact ⟨s :: done, t :: texts, rfl, .cons ht hdone, he ▸ .empty htaken⟩
      · obtain rfl := Except.ok.inj h
        exact ⟨[s], [t], rfl, .cons ht .nil, .line t⟩
    | block =>
      rw [hk] at h
      simp only [bind_outcome_eq_ok_iff] at h
      obtain ⟨t, ht, h⟩ := h
      split at h
      · obtain rfl := Except.ok.inj h
        exact ⟨[s], [t], rfl, .cons ht .nil, .held t⟩
      · obtain rfl := Except.ok.inj h
        exact ⟨[s], [t], rfl, .cons ht .nil, .trimmed t⟩

/-- An item is made from the texts of all its segments, the first ones taken for the marker line. -/
theorem renderItem_outcome {depth : Nat} {marker item : Text} {segments : List Segment}
    (h : (renderItem depth marker segments).outcome = .ok item) :
    ∃ (before after : List Text) (text : Text) (held : Option Text) (kinds : List SegmentKind),
      Rendered segments (before ++ after) ∧
      Taken before text held ∧ after.length ≤ kinds.length ∧
      item = itemText depth marker text
        (held.toList.map (SegmentKind.block, ·) ++ kinds.zip after) := by
  rw [renderItem, bind_outcome_eq_ok_iff] at h
  obtain ⟨first, hfirst, hrest⟩ := h
  rw [bind_outcome_eq_ok_iff] at hrest
  obtain ⟨after, hafter, hitem⟩ := hrest
  obtain ⟨done, before, hsplit, hdone, htaken⟩ := leading_outcome hfirst
  rw [sequence_outcome_eq_ok_iff, List.forall₂_map_left_iff] at hafter
  have hlen : after.length ≤ (first.rest.map (·.kind)).length :=
    Nat.le_of_eq (by rw [List.length_map, hafter.length_eq])
  exact ⟨before, after, first.text, first.held, first.rest.map (·.kind),
    hsplit ▸ List.rel_append hdone hafter, htaken, hlen, (Except.ok.inj hitem).symm⟩

/-! ## Runs that come to nothing -/

section ButIdle

variable {depth : Nat} {segments segments' : List Segment}

/-- The lines of an item with its segments added, once these are rendered. -/
def addRendered (depth : Nat) (above : List Text) (previous : Option SegmentKind)
    (held : List (SegmentKind × Text)) (segments : List Segment) : Traced (List Text) :=
  (Traced.sequence (segments.map (·.rendering))).bind fun texts =>
    Traced.pure (addSegments depth above previous (held ++ (segments.map (·.kind)).zip texts))

theorem addRendered_cons (above : List Text) (previous : Option SegmentKind)
    (held : List (SegmentKind × Text)) (s : Segment) (segments : List Segment) :
    addRendered depth above previous held (s :: segments) =
      s.rendering.bind fun t => addRendered depth above previous (held ++ [(s.kind, t)]) segments := by
  simp only [addRendered, List.map_cons, Traced.sequence, Traced.bind_assoc, Traced.pure_bind,
    List.append_assoc]
  rfl

/-- A segment that is rendered has its lines, or none, and then the next ones follow. -/
theorem addRendered_held (depth : Nat) (above : List Text) (previous : Option SegmentKind)
    (s : SegmentKind × Text) (held : List (SegmentKind × Text)) :
    ∃ above' previous', ∀ segments, addRendered depth above previous (s :: held) segments =
      addRendered depth above' previous' held segments := by
  obtain ⟨kind, t⟩ := s
  cases hlines : segmentLines depth kind t with
  | nil =>
    refine ⟨above, previous, fun segments => ?_⟩
    simp only [addRendered, List.cons_append, addSegments, hlines]
  | cons l ls =>
    let gap := needsBlank previous kind && above.getLast?.any (!·.isEmpty)
    refine ⟨above ++ (if gap then [[]] else []) ++ l :: ls, some kind, fun segments => ?_⟩
    simp only [addRendered, List.cons_append, addSegments, hlines, gap]

theorem addRendered_idle (above : List Text) (previous : Option SegmentKind)
    (segments : List Segment) : addRendered depth above previous [(.inline, [])] segments =
      addRendered depth above previous [] segments := rfl

theorem addRendered_butIdle (h : Segment.ButIdle segments segments') (above : List Text)
    (previous : Option SegmentKind) (held : List (SegmentKind × Text)) :
    addRendered depth above previous held segments' =
      addRendered depth above previous held segments := by
  -- what is held back moves to the lines above, so the segments may be taken first
  suffices hfree : ∀ above previous, addRendered depth above previous [] segments' =
      addRendered depth above previous [] segments by
    induction held generalizing above previous with
    | nil => exact hfree above previous
    | cons s held ih =>
      obtain ⟨above', previous', hheld⟩ := addRendered_held depth above previous s held
      rw [hheld, hheld, ih]
  induction h with
  | nil => exact fun _ _ => rfl
  | idle hkind hnothing _ ih =>
    intro above previous
    rw [addRendered_cons, hnothing, Traced.pure_bind, hkind, List.nil_append, addRendered_idle, ih]
  | cons hkind hrendering _ ih =>
    intro above previous
    rw [addRendered_cons, addRendered_cons, hkind, hrendering]
    refine congrArg _ (funext fun t => ?_)
    rw [List.nil_append]
    obtain ⟨above', previous', hheld⟩ := addRendered_held depth above previous (_, t) []
    rw [hheld, hheld, ih]

theorem leading_butIdle {α : Type} (h : Segment.ButIdle segments segments')
    {f : Leading → Traced α} (hf : ∀ text held rest rest', Segment.ButIdle rest rest' →
      f ⟨text, held, rest'⟩ = f ⟨text, held, rest⟩) :
    (leading segments').bind f = (leading segments).bind f := by
  induction h with
  | nil => rfl
  | idle hkind hnothing _ ih =>
    rw [ih, leading, hkind, hnothing]
    rfl
  | @cons s s' rest rest' hkind hrendering hrest ih =>
    rw [leading, leading, hkind, hrendering]
    cases s.kind with
    | nestedList => exact hf _ _ _ _ (.cons hkind hrendering hrest)
    | inline =>
      dsimp only
      rw [Traced.bind_assoc, Traced.bind_assoc]
      refine congrArg _ (funext fun t => ?_)
      split
      · exact ih
      · exact hf _ _ _ _ hrest
    | block =>
      dsimp only
      rw [Traced.bind_assoc, Traced.bind_assoc]
      refine congrArg _ (funext fun t => ?_)
      split
      · exact hf _ _ _ _ hrest
      · exact hf _ _ _ _ hrest

/-- An item is the marker line with the segments below added to it. -/
theorem renderItem_eq_addRendered (depth : Nat) (marker : Text) (segments : List Segment) :
    renderItem depth marker segments =
      (leading segments).bind fun first =>
        (addRendered depth [markerLine marker first.text] none
          (first.held.toList.map (SegmentKind.block, ·)) first.rest).bind
            (Traced.pure ∘ Text.unlines) := by
  refine congrArg _ (funext fun first => ?_)
  rw [addRendered, Traced.bind_assoc]
  rfl

theorem renderItem_butIdle (depth : Nat) (h : Segment.ButIdle segments segments') (marker : Text) :
    renderItem depth marker segments' = renderItem depth marker segments := by
  rw [renderItem_eq_addRendered, renderItem_eq_addRendered]
  refine leading_butIdle h fun text held rest rest' hrest => ?_
  exact congrArg (Traced.bind · _) (addRendered_butIdle hrest _ _ _)

end ButIdle

end Markdown

end Hypermark
