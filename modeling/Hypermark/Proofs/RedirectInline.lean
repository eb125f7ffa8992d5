import Hypermark.Proofs.Outcome
import Hypermark.Proofs.RedirectSearch
import Hypermark.Proofs.Trim
import Hypermark.Render

/-!
# Lines of a redirected tree

A link to a rejected destination is dropped and an image from one is nothing, so a run of inline
nodes comes out the same when it is redirected.

* `addNodes_redirect`: inline nodes add the same fragments.
* `render_redirect`: a line is the same.
-/

namespace Hypermark

open Traced

variable {f : Option Text → Option Text}

namespace Link

theorem isSafe_trim (url : Text) : isSafe (Text.trim url) = isSafe url := by
  rw [isSafe, isSafe, Text.trim_trim]

end Link

namespace Inline

open Node

/-- A destination of the redirected node is as blank, and as safe, as that of the node, and the same
if it is safe. -/
theorem alike_trim {u v : Text} (h : Alike u v) :
    (Text.trim u).isEmpty = (Text.trim v).isEmpty ∧
      Link.isSafe (Text.trim u) = Link.isSafe (Text.trim v) ∧
      (Link.isSafe (Text.trim v) = true → Text.trim u = Text.trim v) := by
  refine ⟨?_, ?_, ?_⟩
  · have hblank := h.blank
    rw [Bool.eq_iff_iff, ← Text.trim_eq_nil_iff, ← Text.trim_eq_nil_iff] at hblank
    rw [Bool.eq_iff_iff, List.isEmpty_iff, List.isEmpty_iff, hblank]
  · rw [Link.isSafe_trim, Link.isSafe_trim, h.verdict]
  · intro hsafe
    rw [Link.isSafe_trim] at hsafe
    rw [h.safe hsafe]

theorem imageMarkup_redirect (hf : KeepsVerdict f) (n : Node) :
    imageMarkup (n.redirect f) = imageMarkup n := by
  obtain ⟨hempty, hverdict, hsame⟩ := alike_trim (n.attributeOrEmpty_redirect hf "src".toList)
  have hempty' : (sourceOf (n.redirect f)).isEmpty = (sourceOf n).isEmpty := hempty
  have hverdict' : Link.isSafe (sourceOf (n.redirect f)) = Link.isSafe (sourceOf n) := hverdict
  have halt : altLabel (n.redirect f) = altLabel n := by
    rw [altLabel, attributeOrEmpty_redirect_of_ne n (by decide) (by decide)]
    rfl
  have htitle : (n.redirect f).attributeOrEmpty "title".toList =
      n.attributeOrEmpty "title".toList :=
    attributeOrEmpty_redirect_of_ne n (by decide) (by decide)
  simp only [imageMarkup, hempty', hverdict', halt, htitle]
  by_cases hs : Link.isSafe (sourceOf n) = true
  · have hsource : sourceOf (n.redirect f) = sourceOf n := hsame hs
    rw [hsource]
  · rw [if_pos (by simp [hs]), if_pos (by simp [hs])]

mutual

theorem addNode_redirect (hf : KeepsVerdict f) :
    (n : Node) → ∀ scope b, addNode scope (n.redirect f) b = addNode scope n b
  | .text t => fun _ _ => rfl
  | .comment t => fun _ _ => rfl
  | .directive k t => fun _ _ => rfl
  | .element name attrs cs => by
    intro scope b
    have hbelow := addNodes_redirect hf cs (name :: scope)
    have hn : redirect f (.element name attrs cs) = .element name
      (Attributes.mapValues (Attributes.redirected f (Text.lower name)) attrs)
        (redirectAll f cs) := by rw [redirect]
    have hrole := role_redirect (f := f) (.element name attrs cs)
    have himage := imageMarkup_redirect hf (.element name attrs cs)
    have htext := textIn_redirect (f := f) scope (.element name attrs cs)
    obtain ⟨hempty, hverdict, hsame⟩ :=
      alike_trim ((Node.element name attrs cs).attributeOrEmpty_redirect hf "href".toList)
    rw [hn] at hrole himage htext hempty hverdict hsame ⊢
    rw [addNode, addNode]
    simp only [hrole, himage, htext, hbelow]
    cases hr : (Node.element name attrs cs).role with
    | link =>
      by_cases hs : Link.isSafe (hrefOf (.element name attrs cs)) = true
      · have hhref : hrefOf _ = hrefOf (.element name attrs cs) := hsame hs
        simp only [hhref]
      · have hrejected := Bool.eq_false_iff.mpr hs
        have hrejected' : Link.isSafe (hrefOf _) = false := hverdict.trans hrejected
        have hblank : (hrefOf _).isEmpty = (hrefOf (.element name attrs cs)).isEmpty := hempty
        simp only [hrejected, hrejected', hblank, Bool.false_eq_true, if_false]
    | _ => rfl

theorem addNodes_redirect (hf : KeepsVerdict f) :
    (ns : List Node) → ∀ scope dropped b,
      addNodes scope dropped (redirectAll f ns) b = addNodes scope dropped ns b
  | [] => fun _ _ _ => rfl
  | n :: ns => by
    intro scope dropped b
    have hseparator : isSeparator (n.redirect f) = isSeparator n := by cases n <;> rfl
    rw [redirectAll, addNodes, addNodes, hseparator, addNode_redirect hf n scope b]
    simp only [addNodes_redirect hf ns]

end

theorem collapse_redirect (hf : KeepsVerdict f) (scope : Scope) (ns : List Node) :
    Inline.collapse scope (redirectAll f ns) = Inline.collapse scope ns := by
  rw [Inline.collapse, Inline.collapse, buffer, buffer, addNodes_redirect hf]

theorem render_redirect (hf : KeepsVerdict f) (scope : Scope) (ns : List Node) :
    (Inline.render scope (redirectAll f ns)).outcome = (Inline.render scope ns).outcome := by
  rw [Inline.render, Inline.render, collapse_redirect hf]

end Inline

end Hypermark
