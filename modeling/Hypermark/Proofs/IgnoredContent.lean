import Hypermark.Proofs.BareTree

/-!
# The content of ignored elements

The renderer passes over ignored elements, but its searches and the texts it takes for code do not.
Two documents that differ only inside their ignored elements are converted alike if nothing is read
from there: no row or caption of a table, no code and no part of a code figure.  A code block with a
picture in it shows that this is needed.

* `convertTree_bare`: a document is converted like the bare one.
* `ignored_content_unseen`: what is in ignored elements does not count.
-/

namespace Hypermark

instance (opts : Options) (T : Node → Node) (hidden : Scope → Bool) (p : Place) :
    Decidable (p.InSight opts T hidden) :=
  decidable_of_iff ((∀ q ∈ p.lookups opts, hidden q.scope = false) ∧
    ∀ q ∈ p.textSources, hidden q.scope = false ∧ (q.change T).text = q.text)
    ⟨fun h => ⟨h.1, h.2⟩, fun h => ⟨h.lookups, h.texts⟩⟩

/-- Nothing in the document is read from an ignored element, and no table holds another one. -/
structure ReadsNothingHidden (opts : Options) (ns : List Node) : Prop where
  lines : Node.keepsCodesAll [Place.documentTag] ns = true
  blocks : ∀ p ∈ Render.reachedAmong [Place.documentTag] Render.keepAll ns,
    p.isRawTable = false ∧ p.InSight opts Node.bare Scope.isHidden

/-- A document is converted like the one with its ignored elements emptied. -/
theorem convertTree_bare {opts : Options} {ns : List Node} (h : ReadsNothingHidden opts ns) :
    (convertTree opts (Node.bareAll ns)).outcome = (convertTree opts ns).outcome := by
  have hunseen : Render.Unseen opts Node.bare ReadsBare fun p =>
      p.isRawTable = false ∧ p.InSight opts Node.bare Scope.isHidden := by
    refine hides_bare.unseen inherited_readsBare (fun _ _ => Inline.render_bare)
      (fun _ _ hp => hp.2) fun p hp hraw => ?_
    rw [hp.1] at hraw
    cases hraw
  rw [Node.bareAll_eq_map]
  exact convertTree_unseen hunseen
    (fun n hn => ⟨by decide, Node.keepsCodesAll_iff.mp h.lines n hn⟩) h.blocks

/-- Two documents that differ in the content of ignored elements only, and are not read there, are
converted alike. -/
theorem ignored_content_unseen {opts : Options} {xs ys : List Node}
    (hsame : Node.bareAll xs = Node.bareAll ys) (hx : ReadsNothingHidden opts xs)
    (hy : ReadsNothingHidden opts ys) :
    (convertTree opts xs).outcome = (convertTree opts ys).outcome := by
  rw [← convertTree_bare hx, hsame, convertTree_bare hy]

/-- Scripts in a cell of a table and in a code block. -/
theorem scripts_unseen :
    let document (script : Text) : List Node := [
      .element "table".toList [] [.element "tr".toList [] [.element "td".toList []
        [.text "x".toList, .element "script".toList [] [.text script]]]],
      .element "pre".toList [] [.text "y".toList, .element "script".toList [] [.text script]]]
    Node.bareAll (document "one".toList) = Node.bareAll (document "two".toList) ∧
      (convertTree Options.standard (document "one".toList)).outcome =
        (convertTree Options.standard (document "two".toList)).outcome := by
  refine ⟨rfl, ignored_content_unseen rfl ⟨rfl, ?_⟩ ⟨rfl, ?_⟩⟩
  · decide
  · decide

/-- A picture with a text in a code block: the text comes out with the code. -/
theorem picture_in_code_shows :
    let document (content : List Node) : List Node := [
      .element "pre".toList [] [.text "a".toList, .element "svg".toList [] content]]
    Node.bareAll (document [.text "b".toList]) = Node.bareAll (document []) ∧
      (convertTree Options.standard (document [.text "b".toList])).outcome =
        .ok "```\nab\n```".toList ∧
      (convertTree Options.standard (document [])).outcome = .ok "```\na\n```".toList :=
  ⟨rfl, rfl, rfl⟩

end Hypermark
