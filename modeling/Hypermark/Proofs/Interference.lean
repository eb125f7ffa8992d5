import Hypermark.Convert
import Hypermark.Proofs.Quiet
import Hypermark.Proofs.Recursion
import Hypermark.Proofs.RedirectInline

/-!
# What rejected destinations cannot change

A table that holds another table is written as markup, with all its attributes.  Where every such
table holds safe destinations only, redirecting the document does not change the outcome of its
conversion, so no rejected destination can have a part in the output.

* `outerMarkup_redirect`: markup with safe destinations only stays the same.
* `convertTree_redirect`: so does the whole document, if its raw tables are of this kind.
-/

namespace Hypermark

open Traced

/-- The destinations that an element by itself is written with are safe. -/
def Place.WritesSafe (p : Place) : Prop :=
  ∀ a ∈ p.node.writtenAttributes, isDestination p.tag a.1 = true →
    Link.isSafe (destinationOf a.2) = true

/-- If the element is written as markup, all destinations in it are safe. -/
def Place.RawSafe (p : Place) : Prop :=
  p.isRawTable = true → ∀ q ∈ p.descendants, q.WritesSafe

variable {f : Option Text → Option Text}

/-! ## Markup -/

namespace Node

theorem openingMarkup_redirect (hf : KeepsVerdict f) {p : Place} (h : p.WritesSafe) (name : Text) :
    openingMarkup name (p.node.redirect f) = openingMarkup name p.node := by
  have hsame : Attributes.mapValues (Attributes.redirected f p.node.tag)
      p.node.writtenAttributes = p.node.writtenAttributes := by
    have hid : ∀ a ∈ p.node.writtenAttributes,
        (a.1, Attributes.redirected f p.node.tag a.1 a.2) = id a := by
      intro a ha
      unfold Attributes.redirected
      split
      · rename_i hd
        rw [hf.safe a.2 (h a ha hd)]
        rfl
      · rfl
    rw [Attributes.mapValues, List.map_congr_left hid, List.map_id]
  rw [openingMarkup, openingMarkup, writtenAttributes_redirect, hsame]

mutual

theorem markup_redirect (hf : KeepsVerdict f) (raw : Bool) (path : List Nat) (scope : Scope) :
    (n : Node) → (∀ q ∈ ((if n.isElement then [(⟨path, scope, n⟩ : Place)] else []) ++
        Place.elementsBelow path scope n), q.WritesSafe) →
      markup raw (n.redirect f) = markup raw n
  | .text t, _ => rfl
  | .comment t, _ => rfl
  | .directive k t, _ => rfl
  | .element name attrs cs, h => by
    have hhere := h ⟨path, scope, .element name attrs cs⟩ (List.mem_append_left _ (by simp [isElement]))
    have hopening := openingMarkup_redirect hf hhere name
    have hbelow := markupAll_redirect hf (isRaw name) path (name :: scope) 0 cs fun q hq =>
      h q (List.mem_append_right _ hq)
    have hempty : (redirectAll f cs).isEmpty = cs.isEmpty := by cases cs <;> rfl
    simp only [redirect] at hopening ⊢
    simp only [markup, hopening, hbelow, hempty]

theorem markupAll_redirect (hf : KeepsVerdict f) (raw : Bool) (path : List Nat) (scope : Scope) (i : Nat) :
    (ns : List Node) → (∀ q ∈ Place.elementsAmong path scope i ns, q.WritesSafe) →
      markupAll raw (redirectAll f ns) = markupAll raw ns
  | [], _ => rfl
  | n :: ns, h => by
    rw [Place.elementsAmong, List.forall_mem_append] at h
    rw [redirectAll, markupAll, markupAll, markup_redirect hf raw (path ++ [i]) scope n h.1,
      markupAll_redirect hf raw path scope (i + 1) ns h.2]

end

theorem outerMarkup_redirect (hf : KeepsVerdict f) {p : Place} (hhere : p.WritesSafe)
    (h : ∀ q ∈ p.descendants, q.WritesSafe) :
    outerMarkup (p.node.redirect f) = outerMarkup p.node := by
  obtain ⟨path, scope, n⟩ := p
  cases n with
  | element name attrs cs =>
    refine markup_redirect hf false path scope (.element name attrs cs) fun q hq => ?_
    rcases List.mem_append.mp hq with hq | hq
    · have helement : (element name attrs cs).isElement = true := rfl
      rw [if_pos helement, List.mem_singleton] at hq
      rw [hq]
      exact hhere
    · exact h q hq
  | text t => rfl
  | comment t => rfl
  | directive k t => rfl

end Node

/-! ## Documents -/

theorem writesSafe_of_table {p : Place} (hrole : p.node.role = .table) : p.WritesSafe := by
  intro a _ hd
  rw [isDestination, Bool.and_eq_true, Bool.or_eq_true, beq_iff_eq, beq_iff_eq] at hd
  rcases hd.1 with htag | htag
  · rw [Node.role_of_tag htag (by decide)] at hrole
    cases hrole
  · rw [Node.role_of_tag htag (by decide)] at hrole
    cases hrole

/-- Redirection is not seen if no raw table writes a rejected destination. -/
theorem unseen_redirect (hf : KeepsVerdict f) (opts : Options) :
    Render.Unseen opts (Node.redirect f) (fun _ _ => True) Place.RawSafe := by
  refine hides_redirect.unseen ⟨fun _ _ _ => rfl, fun _ _ _ _ _ _ _ _ => trivial,
    fun _ _ _ _ _ => trivial⟩ (fun scope ns _ => ?_) (fun p _ _ => p.inSight_redirect opts)
    fun p hsafe hraw => ?_
  · rw [← Node.redirectAll_eq_map]
    exact Inline.render_redirect hf scope ns
  · have hrole : p.node.role = .table := beq_iff_eq.mp (Bool.and_eq_true_iff.mp hraw).1
    exact Node.outerMarkup_redirect hf (writesSafe_of_table hrole) (hsafe hraw)

/-- A document whose raw tables hold safe destinations only is converted alike with any other
rejected destinations. -/
theorem convertTree_redirect (hf : KeepsVerdict f) (opts : Options) {ns : List Node}
    (hraw : ∀ p ∈ Render.reachedAmong [Place.documentTag] Render.keepAll ns, p.RawSafe) :
    (convertTree opts (Node.redirectAll f ns)).outcome = (convertTree opts ns).outcome := by
  rw [Node.redirectAll_eq_map]
  exact convertTree_unseen (unseen_redirect hf opts) (fun _ _ => trivial) hraw

end Hypermark
