import Hypermark.Proofs.BlockNeighbours
import Hypermark.Proofs.NestedCode
import Hypermark.Proofs.ScopesAlike
import Hypermark.Proofs.SilentBlocks

/-!
# Containers are transparent

A container stands for its children: with or without it the same is rendered.  The one exception is a
container whose blocks and runs come to nothing.  It is written as a line, in which whatever the
blocks left out comes back: a term without a meaning, the text of a table without rows.

* `container_transparent_iff`: when a container renders as its children do.
-/

namespace Hypermark

open Traced Text

/-- A container neither owns texts nor is it the head of a table. -/
theorem IsTransparent.alike {name : Text} {attrs : Attributes} (h : IsTransparent name attrs)
    (scope : Scope) : Scope.Alike (name :: scope) scope := by
  have hrole : Role.ofTag (Text.lower name) ∈ [Role.container, Role.figure] := by
    rcases h with hrole | ⟨hrole, -⟩
    · exact List.mem_cons.mpr (.inl hrole)
    · exact List.mem_cons_of_mem _ (List.mem_singleton.mpr hrole)
  refine .of_transparent scope (Bool.eq_false_iff.mpr fun howns => ?_) fun hhead => ?_
  · have howners : ∀ name ∈ ["script".toList, "style".toList, "template".toList, "rt".toList,
        "rp".toList], Role.ofTag (Text.lower name) ∉ [Role.container, Role.figure] := by decide
    exact howners name (List.contains_iff_mem.mp howns) hrole
  · rw [hhead] at hrole
    exact absurd hrole (by decide)

namespace Render

/-- A block without siblings is left out if it is blank. -/
theorem siblings_single {n : Node} (hblock : n.isBlock = true) (opts : Options) (scope : Scope) :
    (siblings opts scope [n]).outcome =
      (block opts scope n).outcome.map fun t => if allBlank t then [] else t := by
  have hrun : (run scope []).outcome = .ok [] := rfl
  rw [siblings, blocks, if_neg (by decide), if_pos hblock]
  cases hn : (block opts scope n).outcome with
  | error e =>
    refine bind_outcome_of_error ?_ _
    rw [bind_outcome_of_ok hrun, bind_outcome_of_error hn]
  | ok t =>
    rw [Except.map, ← joinBlocks_part]
    refine bind_outcome_eq_ok_iff.mpr ⟨part t, ?_, rfl⟩
    rw [bind_outcome_of_ok hrun, bind_outcome_of_ok hn, blocks_nil, bind_outcome_of_ok hrun,
      List.nil_append, List.append_nil]
    rfl

/-- With a container around them siblings that come to nothing are written as a line. -/
theorem siblings_container {name : Text} {attrs : Attributes} (h : IsTransparent name attrs)
    (opts : Options) (scope : Scope) (ns : List Node) :
    (siblings opts scope [.element name attrs ns]).outcome =
      (siblings opts scope ns).outcome.map fun t =>
        if allBlank t then
          if allBlank (Inline.collapse scope ns) then [] else Inline.collapse scope ns
        else t := by
  have hinner := h.alike scope
  rw [siblings_single (h.isBlock ns), block_of_transparent h, siblings_alike opts hinner,
    Inline.render_alike hinner]
  cases hns : (siblings opts scope ns).outcome with
  | error e =>
    rw [bind_outcome_of_error hns]
    rfl
  | ok t =>
    rw [bind_outcome_of_ok hns]
    cases hblank : allBlank t with
    | true =>
      rw [if_pos rfl]
      simp only [Except.map, hblank, if_true]
      rfl
    | false =>
      rw [if_neg Bool.false_ne_true]
      simp only [Except.map, hblank, outcome_pure, Bool.false_eq_true, if_false]

/-- A container renders as its children do, white space at the ends aside, exactly unless they come to
nothing as blocks and yet leave something in a line. -/
theorem container_transparent_iff (opts : Options) (scope : Scope) (name : Text)
    (attrs : Attributes) (ns : List Node) (h : IsTransparent name attrs) :
    (siblings opts scope [.element name attrs ns]).outcome.map trim =
        (siblings opts scope ns).outcome.map trim ↔
      (silentAmong scope [] ns = true → allBlank (Inline.collapse scope ns) = true) := by
  rw [siblings_container h, ← siblings_isBlank_iff opts]
  cases hns : (siblings opts scope ns).outcome with
  | error e =>
    refine iff_of_true rfl fun hblank => ?_
    obtain ⟨t, ht, -⟩ := hblank
    rw [hns] at ht
    cases ht
  | ok t =>
    rw [isBlank_of_ok hns]
    cases hblank : allBlank t with
    | false =>
      refine iff_of_true ?_ fun h => absurd h Bool.false_ne_true
      simp only [Except.map, hblank, Bool.false_eq_true, if_false]
    | true =>
      have ht : trim t = [] := (trim_eq_nil_iff t).mpr hblank
      simp only [Except.map, hblank, if_true, Except.ok.injEq, ht, trim_eq_nil_iff, true_imp_iff]
      split
      · rename_i hline
        exact iff_of_true rfl hline
      · exact Iff.rfl

/-- A section with a heading, a list without items in a container, a definition list and text. -/
theorem section_is_transparent :
    let ns : List Node := [
      .element "h2".toList [] [.text "a".toList],
      .element "div".toList [] [.element "ul".toList [] []],
      .element "dl".toList [] [.element "dt".toList [] [.text "b".toList],
        .element "dd".toList [] [.text "c".toList]],
      .text "d".toList]
    let text := "## a\n\nb\n: c\n\nd".toList
    IsTransparent "section".toList [] ∧
      (siblings Options.standard [Place.documentTag] ns).outcome.map trim = .ok text ∧
      (siblings Options.standard [Place.documentTag]
        [.element "section".toList [] ns]).outcome.map trim = .ok text :=
  ⟨.inl rfl, rfl, (container_transparent_iff Options.standard _ _ _ _ (.inl rfl)).mpr (by decide)⟩

/-- A term without a meaning is dropped, unless there is a container around the definition list. -/
theorem lone_term_shows_in_container :
    let ns : List Node := [.element "dl".toList [] [.element "dt".toList [] [.text "a".toList]]]
    IsTransparent "div".toList [] ∧
      (siblings Options.standard [Place.documentTag] ns).outcome.map trim = .ok [] ∧
      (siblings Options.standard [Place.documentTag]
        [.element "div".toList [] ns]).outcome.map trim = .ok "a".toList :=
  ⟨.inl rfl, rfl, rfl⟩

end Render

end Hypermark
