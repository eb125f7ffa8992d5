import Hypermark.Proofs.InlineTally

/-!
# Line breaks in a run

Every line break of the source becomes a space or is dropped while a run is collapsed, but for the
one of a `br`.  The markup of a run is not collapsed any more, so its parts have to be free of breaks
from the start.  Code and the labels of images are; destinations and titles are written as they
stand.

* `not_mem_codeSpan`: code is on one line.
* `only_breaks_break_lines_iff`: the breaks of a run are those of its `br` elements exactly if the
  links and images take over none.
-/

namespace Hypermark

open Text

/-! ## Code -/

namespace Markdown

theorem feed_not_mem_breaksToSpaces (t : Text) : '\n' ∉ breaksToSpaces t := by
  fun_induction breaksToSpaces t with
  | case1 => exact List.not_mem_nil
  | case2 cs ih => exact ih
  | case3 cs _ ih =>
    rw [List.mem_cons, not_or]
    exact ⟨by decide, ih⟩
  | case4 c cs _ hc ih =>
    rw [List.mem_cons, not_or]
    exact ⟨fun h => hc h.symm, ih⟩

theorem mem_of_mem_breaksToSpaces {c : Char} (hc : c ≠ ' ') {t : Text} (h : c ∈ breaksToSpaces t) :
    c ∈ t := by
  fun_induction breaksToSpaces t with
  | case1 => exact h
  | case2 cs ih => exact List.mem_cons_of_mem _ (ih h)
  | case3 cs _ ih => exact List.mem_cons_of_mem _ (ih ((List.mem_cons.mp h).resolve_left hc))
  | case4 d cs _ _ ih =>
    rcases List.mem_cons.mp h with rfl | h
    · exact List.mem_cons_self ..
    · exact List.mem_cons_of_mem _ (ih h)

/-- Code in a line has no line breaks. -/
theorem not_mem_codeSpan {c : Char} (hc : c = '\r' ∨ c = '\n') (t : Text) : c ∉ codeSpan t := by
  have hcontent : c ∉ spanContent t := by
    intro hmem
    have hspaces := (infix_trim _).subset hmem
    rcases hc with rfl | rfl
    · exact not_mem_unifyBreaks t (mem_of_mem_breaksToSpaces (by decide) hspaces)
    · exact feed_not_mem_breaksToSpaces _ hspaces
  have hfence : ∀ n, c ∉ backticks n := fun n hmem => by
    rw [List.eq_of_mem_replicate hmem] at hc
    revert hc
    decide
  have hpadding : ∀ neighbour, c ∉ spanPadding neighbour := fun neighbour hmem => by
    rw [spanPadding] at hmem
    split at hmem
    · rw [List.mem_singleton.mp hmem] at hc
      revert hc
      decide
    · exact List.not_mem_nil hmem
  rw [codeSpan]
  split
  · exact List.not_mem_nil
  · simp only [List.mem_append, not_or]
    exact ⟨⟨⟨⟨hfence _, hpadding _⟩, hcontent⟩, hpadding _⟩, hfence _⟩

end Markdown

/-! ## Without breaks -/

namespace Node

mutual

/-- The node without the `br` elements below it. -/
def withoutBreaks : Node → Node
  | .element name attrs cs => .element name attrs (withoutBreaksAll cs)
  | n => n

/-- Siblings without the `br` elements among and below them. -/
def withoutBreaksAll : List Node → List Node
  | [] => []
  | n :: ns =>
    if n.role = .lineBreak then withoutBreaksAll ns else withoutBreaks n :: withoutBreaksAll ns

end

mutual

theorem count_tags_withoutBreaks :
    (n : Node) → n.role ≠ .lineBreak → n.withoutBreaks.tags.count "br".toList = 0
  | .element name attrs cs, hrole => by
    have hname : Text.lower name ≠ "br".toList := by
      intro hname
      rw [role, hname] at hrole
      exact hrole (by decide)
    rw [withoutBreaks, tags, List.count_cons_of_ne hname, count_tags_withoutBreaksAll cs]
  | .text _, _ => rfl
  | .comment _, _ => rfl
  | .directive _ _, _ => rfl

theorem count_tags_withoutBreaksAll :
    (ns : List Node) → (tagsAll (withoutBreaksAll ns)).count "br".toList = 0
  | [] => rfl
  | n :: ns => by
    rw [withoutBreaksAll]
    split
    · exact count_tags_withoutBreaksAll ns
    · rename_i hrole
      rw [tagsAll, List.count_append, count_tags_withoutBreaks n hrole, count_tags_withoutBreaksAll ns]

end

end Node

namespace Inline

open Node

/-- What an element takes over does not depend on its children. -/
theorem taken_children (c : Char) (name : Text) (attrs : Attributes) (cs ds : List Node) :
    taken c (.element name attrs cs) = taken c (.element name attrs ds) := rfl

mutual

theorem takenAll_references_withoutBreaks (c : Char) :
    (n : Node) → takenAll c (references n.withoutBreaks) = takenAll c (references n)
  | .element name attrs cs => by
    have hbelow := takenAll_referencesAmong_withoutBreaks c cs
    have hself := taken_children c name attrs (withoutBreaksAll cs) cs
    have hrole : (Node.element name attrs (withoutBreaksAll cs)).role =
      (Node.element name attrs cs).role := rfl
    have hhref : hrefOf (.element name attrs (withoutBreaksAll cs)) =
      hrefOf (.element name attrs cs) := rfl
    have hsource : sourceOf (.element name attrs (withoutBreaksAll cs)) =
      sourceOf (.element name attrs cs) := rfl
    rw [withoutBreaks]
    cases h : (Node.element name attrs cs).role with
    | ignored => simp only [references, hrole, h]
    | lineBreak => simp only [references, hrole, h]
    | code => simp only [references, hrole, h]
    | link =>
      simp only [references, hrole, h, hhref]
      split
      · exact hbelow
      split
      · rw [takenAll_cons, takenAll_cons, hself, hbelow]
      · rfl
    | image =>
      simp only [references, hrole, h, hsource]
      split
      · rfl
      · rw [takenAll_cons, takenAll_cons, hself]
    | _ =>
      simp only [references, hrole, h]
      exact hbelow
  | .text _ => rfl
  | .comment _ => rfl
  | .directive _ _ => rfl

theorem takenAll_referencesAmong_withoutBreaks (c : Char) : (ns : List Node) →
    takenAll c (referencesAmong (withoutBreaksAll ns)) = takenAll c (referencesAmong ns)
  | [] => rfl
  | n :: ns => by
    rw [withoutBreaksAll, referencesAmong, takenAll_append,
      ← takenAll_referencesAmong_withoutBreaks c ns]
    split
    · rename_i hrole
      have hnone : references n = [] := by
        cases n with
        | element name attrs cs => simp only [references, hrole]
        | text t => rfl
        | comment t => rfl
        | directive k t => rfl
      rw [hnone]
      exact (Nat.zero_add _).symm
    · rw [referencesAmong, takenAll_append, takenAll_references_withoutBreaks c n]

end

/-! ## Runs -/

theorem takenAll_eq_zero_iff {c : Char} (hc : c ≠ '<') (ns : List Node) :
    takenAll c ns = 0 ↔ ∀ n ∈ ns, ∀ t ∈ takenTexts n, c ∉ t := by
  have hone : ∀ n, taken c n = 0 ↔ ∀ t ∈ takenTexts n, c ∉ t := fun n => by
    have hbracket : ['<'].count c = 0 :=
      List.count_eq_zero.mpr fun h => hc (List.mem_singleton.mp h)
    rw [taken, hbracket, ite_self, Nat.add_zero, List.sum_eq_zero_iff_forall_eq_nat,
      List.forall_mem_map]
    simp only [List.count_eq_zero]
  rw [takenAll, List.sum_eq_zero_iff_forall_eq_nat, List.forall_mem_map]
  simp only [hone]

theorem codeSpares_of_break {c : Char} (hc : c = '\r' ∨ c = '\n') (tags : List Text) :
    CodeSpares c tags := fun _ => Markdown.not_mem_codeSpan hc

/-- A run has no carriage return, a line feed for each `br` at most, and without its `br` elements
none, exactly if its links and images take over neither. -/
theorem only_breaks_break_lines_iff (scope : Scope) (ns : List Node) :
    ('\r' ∉ collapse scope ns ∧ (collapse scope ns).count '\n' ≤ lineBreaksAmong ns ∧
      '\n' ∉ collapse scope (withoutBreaksAll ns)) ↔
    ∀ n ∈ referencesAmong ns, ∀ t ∈ takenTexts n, '\r' ∉ t ∧ '\n' ∉ t := by
  have hreturn := count_collapse (foreign_of_isSpace (c := '\r') rfl (by decide)) scope
    (codeSpares_of_break (.inl rfl) (tagsAll ns))
  have hfeed := count_collapse (foreign_of_isSpace (c := '\n') rfl (by decide)) scope
    (codeSpares_of_break (.inr rfl) (tagsAll ns))
  have hunbroken := count_collapse (foreign_of_isSpace (c := '\n') rfl (by decide)) scope
    (codeSpares_of_break (.inr rfl) (tagsAll (withoutBreaksAll ns)))
  have hreturns : ∀ n, feedCount '\r' n = 0 := fun n =>
    List.count_eq_zero.mpr fun h => by cases List.eq_of_mem_replicate h
  have hfeeds : ∀ n, feedCount '\n' n = n := fun n => List.count_replicate_self
  rw [hreturns] at hreturn
  rw [hfeeds] at hfeed hunbroken
  rw [takenAll_referencesAmong_withoutBreaks, lineBreaksAmong, count_tags_withoutBreaksAll] at hunbroken
  have hsplit : (∀ n ∈ referencesAmong ns, ∀ t ∈ takenTexts n, '\r' ∉ t ∧ '\n' ∉ t) ↔
      takenAll '\r' (referencesAmong ns) = 0 ∧ takenAll '\n' (referencesAmong ns) = 0 := by
    rw [takenAll_eq_zero_iff (by decide), takenAll_eq_zero_iff (by decide)]
    exact ⟨fun h => ⟨fun n hn t ht => (h n hn t ht).1, fun n hn t ht => (h n hn t ht).2⟩,
      fun h n hn t ht => ⟨h.1 n hn t ht, h.2 n hn t ht⟩⟩
  rw [hsplit, ← List.count_eq_zero, ← List.count_eq_zero]
  omega

/-- A line feed in a title comes through, without any `br`. -/
theorem title_breaks_line :
    let image : Node := .element "img".toList
      [("src".toList, some "x".toList), ("title".toList, some "a\nb".toList)] []
    collapse [] [image] = "![](x \"a\nb\")".toList ∧
      ¬(collapse [] [image]).count '\n' ≤ lineBreaksAmong [image] := by
  decide

end Inline

end Hypermark
