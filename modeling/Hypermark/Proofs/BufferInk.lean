import Hypermark.Inline.Render
import Hypermark.Proofs.Ink

/-!
# Ink of inline output

The ink of a buffer leaves its hard breaks out, which are only white space once the buffer has been
collapsed.  Collapsing moves white space about and so keeps the ink, and every way of adding a child
to a buffer adds the ink of the child.

* `ink_collapse`: one collapsed text has the ink of the buffer.
* `inkOf_addWrapped`, `inkOf_addAnchor`: emphasis and links without destination add no ink of their
  own.
-/

namespace Hypermark

namespace Buffer

variable {p : Char → Bool}

/-- The ink of a fragment, none for a hard break. -/
def fragmentInk (p : Char → Bool) : Fragment → Text
  | .hardBreak _ => []
  | f => Text.ink p f.content

def inkOf (p : Char → Bool) (b : Buffer) : Text := b.flatMap (fragmentInk p)

@[simp] theorem inkOf_nil : inkOf p [] = [] := rfl

@[simp] theorem inkOf_append (a b : Buffer) : inkOf p (a ++ b) = inkOf p a ++ inkOf p b :=
  List.flatMap_append ..

@[simp] theorem inkOf_cons (f : Fragment) (b : Buffer) :
    inkOf p (f :: b) = fragmentInk p f ++ inkOf p b := rfl

/-! ## Collapsing -/

/-- A measure of fragments carried over to atoms; gaps count for nothing. -/
def ofAtom (μ : Fragment → Text) : Atom → Text
  | .piece f => μ f
  | _ => []

/-- Settling keeps every measure that is nothing on the gaps it puts in. -/
theorem flatMap_settle {μ : Fragment → Text} (hspace : μ (.text [' ']) = [])
    (hbreak : ∀ n, μ (.hardBreak (List.replicate n '\n')) = []) (as : List Atom) :
    (settle as).flatMap μ = as.flatMap (ofAtom μ) := by
  have hgap : ∀ g : Gap, g.fragments.flatMap μ = [] := by
    intro g
    unfold Gap.fragments
    split
    · rw [List.flatMap_singleton, hbreak]
    split
    · rw [List.flatMap_singleton, hspace]
    · rfl
  induction as with
  | nil => rfl
  | cons a as ih =>
    cases a with
    | piece f =>
      obtain ⟨gap, hafter⟩ := exists_gap_settleAfter Gap.none as
      rw [settle, hafter, List.flatMap_cons, List.flatMap_append, hgap, List.nil_append, ih]
      rfl
    | space => exact ih
    | breaks n => exact ih

variable (hp : Ink p)
include hp

/-- The atoms of a buffer have its ink, however hard breaks are counted. -/
theorem flatMap_atoms {μ : Fragment → Text} (htext : ∀ t, μ (.text t) = Text.ink p t)
    (hmarkup : ∀ t, μ (.markup t) = Text.ink p t) (b : Buffer) :
    (atoms id b).flatMap (ofAtom μ) = inkOf p b := by
  have hruns : ∀ rs : List Text, (rs.map fun run =>
      if run.all Text.isSpace then Atom.space else .piece (.text (id run))).flatMap (ofAtom μ) =
        Text.ink p rs.flatten := by
    intro rs
    induction rs with
    | nil => rfl
    | cons r rs ih =>
      rw [List.map_cons, List.flatMap_cons, ih, List.flatten_cons, Text.ink_append]
      congr 1
      by_cases hr : r.all Text.isSpace = true
      · rw [if_pos hr]
        refine (Text.ink_eq_nil fun c hc => hp.blank c ?_).symm
        exact Text.isBlank_of_isSpace (List.all_eq_true.mp hr c hc)
      · rw [if_neg hr]
        exact htext r
  induction b with
  | nil => rfl
  | cons f b ih =>
    have hfragment : (atomsOf id f).flatMap (ofAtom μ) = fragmentInk p f := by
      cases f with
      | text t =>
        rw [atomsOf, hruns, Text.flatten_runs]
        rfl
      | markup t =>
        rw [atomsOf, List.flatMap_singleton]
        exact hmarkup t
      | hardBreak t => rfl
    rw [atoms, List.flatMap_cons, List.flatMap_append, hfragment, inkOf_cons]
    exact congrArg _ ih

theorem ink_collapse (b : Buffer) : Text.ink p (collapse b) = inkOf p b := by
  have hspace : Text.ink p (Fragment.text [' ']).content = [] := Text.ink_cons_of_neg hp.space []
  have hbreak : ∀ n, Text.ink p (Fragment.hardBreak (List.replicate n '\n')).content = [] :=
    fun n => Text.ink_eq_nil fun _ hc => (List.eq_of_mem_replicate hc).symm ▸ hp.lineFeed
  rw [collapse, collapseWith, raw, Text.ink_flatMap, collapsedWith, flatMap_settle hspace hbreak]
  exact flatMap_atoms hp (fun _ => rfl) (fun _ => rfl) b

theorem inkOf_collapsed (b : Buffer) : inkOf p (collapsed b) = inkOf p b := by
  have hspace : fragmentInk p (.text [' ']) = [] := Text.ink_cons_of_neg hp.space []
  rw [collapsed, collapsedWith, inkOf, flatMap_settle hspace (fun _ => rfl)]
  exact flatMap_atoms hp (fun _ => rfl) (fun _ => rfl) b

/-! ## Building -/

omit hp in
theorem inkOf_addText (b : Buffer) (t : Text) : inkOf p (b.addText t) = inkOf p b ++ Text.ink p t := by
  unfold addText
  by_cases he : t.isEmpty = true
  · rw [if_pos he, Text.ink_of_isEmpty he, List.append_nil]
  · rw [if_neg he, inkOf_append]
    simp [inkOf, fragmentInk, Fragment.content]

theorem inkOf_spaceIf (wanted : Bool) (b : Buffer) : inkOf p (spaceIf wanted b) = inkOf p b := by
  unfold spaceIf
  split
  · rw [inkOf_addText, Text.ink_cons_of_neg hp.space, Text.ink_nil, List.append_nil]
  · rfl

theorem inkOf_addSurrounded (b child fragments : Buffer) :
    inkOf p (b.addSurrounded child fragments) = inkOf p b ++ inkOf p fragments := by
  rw [addSurrounded, inkOf_spaceIf hp, inkOf_append, inkOf_spaceIf hp]

/-- A child that collapsed to nothing had no ink. -/
theorem inkOf_addStandIn {b child : Buffer} (h : (collapsed child).isEmpty = true) :
    inkOf p (b.addStandIn child) = inkOf p b ++ inkOf p child := by
  rw [addStandIn, inkOf_spaceIf hp, ← inkOf_collapsed hp child, List.isEmpty_iff.mp h, inkOf_nil,
    List.append_nil]

theorem inkOf_addWrapped {delimiter : Text} (hd : Text.ink p delimiter = []) (b child : Buffer) :
    inkOf p (b.addWrapped child delimiter) = inkOf p b ++ inkOf p child := by
  unfold addWrapped
  by_cases he : (collapsed child).isEmpty = true
  · rw [if_pos he, inkOf_addStandIn hp he]
  · have hmark : fragmentInk p (.markup delimiter) = [] := hd
    rw [if_neg he, inkOf_addSurrounded hp, List.cons_append, inkOf_cons, inkOf_append, inkOf_cons, hmark,
      inkOf_collapsed hp, List.nil_append, inkOf_nil, List.append_nil, List.append_nil]

theorem inkOf_addAnchor (b label : Buffer) :
    inkOf p (Inline.addAnchor b label) = inkOf p b ++ inkOf p label := by
  unfold Inline.addAnchor
  by_cases he : (collapsed label).isEmpty = true
  · rw [if_pos he, inkOf_addStandIn hp he]
  · rw [if_neg he, inkOf_addSurrounded hp, inkOf_collapsed hp]

end Buffer

end Hypermark
