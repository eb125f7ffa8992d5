import Hypermark.Proofs.Item
import Hypermark.Proofs.Spacing
import Hypermark.Render

/-!
# Runs, blocks and items in a measure

The parts of a document are put together from runs and blocks, and an item of a list from segments.
A measure of texts that white space does not change finds in them what it finds in the runs and the
blocks, one after the other, and in an item also the marker.

* `Gauge.run`, `Gauge.flatMap_part`: runs and blocks among siblings.
* `Gauge.runSegment`, `Gauge.renderItem`: an item and what it holds.
-/

namespace Hypermark

theorem flatMap_zip_snd {α β γ : Type} (f : β → List γ) {xs : List α} {ys : List β}
    (h : ys.length ≤ xs.length) : ((xs.zip ys).flatMap fun s => f s.2) = ys.flatMap f := by
  rw [← List.flatMap_map Prod.snd f, List.map_snd_zip h]

namespace Gauge

open Text Markdown Traced

variable {β : Type} {μ : Text → List β} (hμ : Gauge μ)
include hμ

/-! ## Siblings -/

theorem run {scope : Scope} {ns : List Node} {parts : List Text}
    (h : (Render.run scope ns).outcome = .ok parts) :
    parts.flatMap μ = μ (Inline.collapse scope ns) := by
  rw [Render.run, bind_outcome_eq_ok_iff] at h
  obtain ⟨t, ht, h⟩ := h
  obtain rfl := Except.ok.inj ht
  obtain rfl := Except.ok.inj h
  split
  · rename_i he
    rw [hμ.of_isEmpty he, List.flatMap_nil]
  · rw [List.flatMap_singleton]

theorem flatMap_part (t : Text) : (Render.part t).flatMap μ = μ t := by
  unfold Render.part
  by_cases hb : allBlank t = true
  · rw [if_pos hb, hμ.of_allBlank hb, List.flatMap_nil]
  · rw [if_neg hb, List.flatMap_singleton]

/-! ## Items -/

theorem runSegment {scope : Scope} {ns : List Node} {texts : List Text}
    (h : Rendered (Render.runSegment scope ns) texts) :
    texts.flatMap μ = μ (Inline.collapse scope ns) := by
  unfold Render.runSegment at h
  split at h
  · rename_i he
    cases h
    rw [List.isEmpty_iff.mp he]
    exact hμ.nil.symm
  · cases h with
    | cons ht h =>
      cases h
      obtain rfl := Except.ok.inj ht
      exact List.flatMap_singleton ..

/-- The marker line and what is held back are measured as the segments that were taken. -/
theorem taken {texts : List Text} {text : Text} {held : Option Text}
    (h : Taken texts text held) : texts.flatMap μ = μ text ++ held.toList.flatMap μ := by
  induction h with
  | nothing => simp [hμ.nil]
  | line t => simp
  | trimmed t => simp [hμ.trim]
  | held t => simp [hμ.nil]
  | empty _ ih => rw [List.flatMap_cons, hμ.nil, List.nil_append, ih]

/-- An item is its marker line and what comes below, and holds its segments in order. -/
theorem renderItem {depth : Nat} {marker : Text} {segments : List Segment} {item : Text}
    (h : (renderItem depth marker segments).outcome = .ok item) :
    ∃ texts text below, Rendered segments texts ∧ texts.flatMap μ = μ text ++ below ∧
      μ item = μ (markerLine marker text) ++ below := by
  obtain ⟨before, after, text, held, kinds, hrendered, htaken, hlen, rfl⟩ := renderItem_outcome h
  refine ⟨before ++ after, text, held.toList.flatMap μ ++ after.flatMap μ, hrendered, ?_, ?_⟩
  · rw [List.flatMap_append, hμ.taken htaken, List.append_assoc]
  · rw [hμ.itemText, List.flatMap_append, List.flatMap_map, flatMap_zip_snd μ hlen]

end Gauge

end Hypermark
