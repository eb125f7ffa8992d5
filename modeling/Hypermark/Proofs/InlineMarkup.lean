import Hypermark.Inline.Render

/-!
# What inline runs are made of

The inline renderer writes literal text, hard breaks and finished Markdown, and the latter only in a
few forms.  A link or an image is among them only if its destination was judged safe, and none of
them has white space at its edges.

* `Buffer.of_piece_mem_atoms`: what collapsing sees as a piece, and where it comes from.
* `written_buffer`: every fragment of a run has one of these forms.
* `collapse_edges`: a run comes out without white space at its edges.
-/

namespace Hypermark

/-- Settling puts single spaces and hard breaks between the pieces. -/
theorem Buffer.forall_mem_settle {Q : Fragment → Prop}
    (hbreak : ∀ n, Q (.hardBreak (List.replicate n '\n'))) (hspace : Q (.text [' ']))
    {as : List Atom} (h : ∀ f, .piece f ∈ as → Q f) : ∀ f ∈ settle as, Q f := by
  have hgap : ∀ gap : Gap, ∀ f ∈ gap.fragments, Q f := by
    intro gap
    rw [Gap.fragments]
    split
    · exact (List.forall_mem_singleton ..).mpr (hbreak _)
    split
    · exact (List.forall_mem_singleton ..).mpr hspace
    · exact fun f hf => absurd hf List.not_mem_nil
  induction as with
  | nil => exact fun f hf => absurd hf List.not_mem_nil
  | cons a as ih =>
    have hrest := ih fun f hf => h f (List.mem_cons_of_mem _ hf)
    cases a with
    | piece f =>
      obtain ⟨gap, hafter⟩ := exists_gap_settleAfter Gap.none as
      rw [settle, hafter]
      exact List.forall_mem_cons.mpr ⟨h f (List.mem_cons_self ..),
        List.forall_mem_append.mpr ⟨hgap gap, hrest⟩⟩
    | space => exact hrest
    | breaks n => exact hrest

/-- A piece is finished Markdown of the buffer, or a run of a text in it. -/
theorem Buffer.of_piece_mem_atoms {escape : Text → Text} {b : Buffer} {f : Fragment}
    (h : .piece f ∈ atoms escape b) : (∃ m, f = .markup m ∧ .markup m ∈ b) ∨
      ∃ t run, f = .text (escape run) ∧ .text t ∈ b ∧ run ∈ Text.runs t ∧
        run.all Text.isSpace = false := by
  rw [atoms, List.mem_flatMap] at h
  obtain ⟨g, hg, hf⟩ := h
  cases g with
  | text t =>
    obtain ⟨run, hmem, hrun⟩ := List.mem_map.mp hf
    split at hrun
    · cases hrun
    · rename_i hspace
      cases hrun
      exact .inr ⟨t, run, rfl, hg, hmem, Bool.eq_false_iff.mpr hspace⟩
  | markup m =>
    cases List.mem_singleton.mp hf
    exact .inl ⟨m, rfl, hg⟩
  | hardBreak t => cases List.mem_singleton.mp hf

namespace Inline

/-! ## Forms of fragments -/

/-- What the inline renderer writes, with where finished Markdown comes from: a link or an image has
passed the judgement of its destination. -/
inductive Written : Fragment → Prop
  | text (t : Text) : Written (.text t)
  | hardBreak (t : Text) : Written (.hardBreak t)
  | strong : Written (.markup strongMark)
  | emphasis : Written (.markup emphasisMark)
  | code (t : Text) : Markdown.codeSpan t ≠ [] → Written (.markup (Markdown.codeSpan t))
  | image (n : Node) : Link.isSafe (sourceOf n) = true → Written (.markup (imageMarkup n))
  | link (label : Buffer) (href : Text) : Link.isSafe href = true → (∀ g ∈ label, Written g) →
    Written (.markup (linkMarkup (label.collapseWith Markdown.escapeLabel) href))

/-- All of a buffer is written by the inline renderer. -/
def AllWritten (b : Buffer) : Prop := ∀ g ∈ b, Written g

/-- A property of fragments that all but finished Markdown has at any rate. -/
structure OfMarkup (P : Fragment → Prop) : Prop where
  text : ∀ t, P (.text t)
  hardBreak : ∀ t, P (.hardBreak t)

namespace OfMarkup

variable {P : Fragment → Prop} (hP : OfMarkup P) {b label : Buffer} (h : ∀ g ∈ b, P g)
include h

theorem concat {g : Fragment} (hg : P g) : ∀ f ∈ b ++ [g], P f :=
  List.forall_mem_append.mpr ⟨h, (List.forall_mem_singleton ..).mpr hg⟩

theorem addMarkup {t : Text} (ht : t ≠ [] → P (.markup t)) : ∀ g ∈ b.addMarkup t, P g := by
  rw [Buffer.addMarkup]
  split
  · exact h
  · rename_i hne
    exact concat h (ht (List.isEmpty_eq_false_iff.mp (Bool.eq_false_iff.mpr hne)))

include hP

theorem addText (t : Text) : ∀ g ∈ b.addText t, P g := by
  rw [Buffer.addText]
  split
  · exact h
  · exact concat h (hP.text t)

theorem spaceIf (wanted : Bool) : ∀ g ∈ b.spaceIf wanted, P g := by
  rw [Buffer.spaceIf]
  split
  · exact hP.addText h [' ']
  · exact h

theorem addSurrounded (child : Buffer) {c : Buffer} (hc : ∀ g ∈ c, P g) :
    ∀ g ∈ b.addSurrounded child c, P g :=
  hP.spaceIf (List.forall_mem_append.mpr ⟨hP.spaceIf h _, hc⟩) _

theorem pruneEnd : ∀ g ∈ Buffer.pruneEnd b, P g := by
  fun_induction Buffer.pruneEnd b with
  | case1 => exact h
  | case2 => exact h
  | case3 t before _ ih => exact ih (List.forall_mem_cons.mp h).2
  | case4 t before => exact List.forall_mem_cons.mpr ⟨hP.text _, (List.forall_mem_cons.mp h).2⟩
  | case5 t before _ ih => exact ih (List.forall_mem_cons.mp h).2
  | case6 => exact h

theorem prune : ∀ g ∈ b.prune, P g := fun g hg =>
  hP.pruneEnd (fun f hf => h f (List.mem_reverse.mp hf)) g (List.mem_reverse.mp hg)

/-- White space is settled between pieces that come from the buffer. -/
theorem collapsed : ∀ g ∈ b.collapsed, P g := by
  refine Buffer.forall_mem_settle (fun _ => hP.hardBreak _) (hP.text _) fun g hg => ?_
  rcases Buffer.of_piece_mem_atoms hg with ⟨m, rfl, hm⟩ | ⟨_, run, rfl, _⟩
  · exact h _ hm
  · exact hP.text run

theorem addWrapped (hlabel : ∀ g ∈ label, P g) {delimiter : Text} (hd : P (.markup delimiter)) :
    ∀ g ∈ b.addWrapped label delimiter, P g := by
  simp only [Buffer.addWrapped]
  split
  · exact hP.spaceIf h _
  · exact hP.addSurrounded h label
      (concat (List.forall_mem_cons.mpr ⟨hd, hP.collapsed hlabel⟩) hd)

theorem addAnchor (hlabel : ∀ g ∈ label, P g) : ∀ g ∈ addAnchor b label, P g := by
  simp only [Inline.addAnchor]
  split
  · exact hP.spaceIf h _
  · exact hP.addSurrounded h label (hP.collapsed hlabel)

end OfMarkup

theorem ofMarkup_written : OfMarkup Written := ⟨.text, .hardBreak⟩

theorem allWritten_nil : AllWritten [] := List.forall_mem_nil _

theorem written_imageMarkup {n : Node} (h : imageMarkup n ≠ []) :
    Written (.markup (imageMarkup n)) := by
  apply Written.image
  cases hsafe : Link.isSafe (sourceOf n) with
  | true => rfl
  | false =>
    simp only [imageMarkup, hsafe, Bool.not_false, Bool.or_true, if_true, ne_eq,
      not_true_eq_false] at h

mutual

theorem written_addNode (scope : Scope) :
    (n : Node) → (b : Buffer) → AllWritten b → AllWritten (addNode scope n b).1
  | .text t, b, h => ofMarkup_written.addText h _
  | .comment t, b, h => h
  | .directive k t, b, h => h
  | .element name attrs cs, b, h => by
    have hlabel := written_addNodes (name :: scope) false cs [] allWritten_nil
    simp only [addNode]
    split
    · exact h
    · split
      · exact ofMarkup_written.addAnchor h hlabel
      split
      · rename_i hsafe
        exact ofMarkup_written.addSurrounded h _
          ((List.forall_mem_singleton ..).mpr (.link _ _ hsafe hlabel))
      · exact ofMarkup_written.prune h
    · exact OfMarkup.concat h (.hardBreak _)
    · exact OfMarkup.addMarkup h written_imageMarkup
    · exact ofMarkup_written.addWrapped h hlabel .strong
    · exact ofMarkup_written.addWrapped h hlabel .emphasis
    · exact OfMarkup.addMarkup h (.code _)
    · exact written_addNodes (name :: scope) false cs b h

theorem written_addNodes (scope : Scope) (dropped : Bool) :
    (ns : List Node) → (b : Buffer) → AllWritten b → AllWritten (addNodes scope dropped ns b)
  | [], b, h => by
    rw [addNodes]
    exact h
  | n :: ns, b, h => by
    rw [addNodes]
    split
    · exact written_addNodes scope false ns b h
    · exact written_addNodes scope _ ns _ (written_addNode scope n b h)

end

/-- Every run of inline nodes comes out as texts, breaks, delimiters, code and links and images with
safe destinations. -/
theorem written_buffer (scope : Scope) (ns : List Node) : AllWritten (buffer scope ns) :=
  written_addNodes scope false ns [] allWritten_nil

/-! ## Edges -/

/-- The text starts and ends with characters that do not collapse. -/
structure Solid (t : Text) : Prop where
  starts : ∃ c s, t = c :: s ∧ Text.isSpace c = false
  ends : ∃ s c, t = s ++ [c] ∧ Text.isSpace c = false

theorem Solid.ne_nil {t : Text} (h : Solid t) : t ≠ [] := by
  obtain ⟨c, s, rfl, _⟩ := h.starts
  exact List.cons_ne_nil c s

theorem Solid.append {a b : Text} (ha : Solid a) (hb : Solid b) (m : Text) :
    Solid (a ++ m ++ b) where
  starts := by
    obtain ⟨c, s, rfl, hc⟩ := ha.starts
    exact ⟨c, s ++ m ++ b, by simp, hc⟩
  ends := by
    obtain ⟨s, c, rfl, hc⟩ := hb.ends
    exact ⟨a ++ m ++ s, c, by simp, hc⟩

theorem solid_singleton {c : Char} (hc : Text.isSpace c = false) : Solid [c] :=
  ⟨⟨c, [], rfl, hc⟩, ⟨[], c, rfl, hc⟩⟩

theorem solid_replicate_succ {c : Char} (hc : Text.isSpace c = false) (n : Nat) :
    Solid (List.replicate (n + 1) c) :=
  ⟨⟨c, _, List.replicate_succ, hc⟩, ⟨_, c, List.replicate_succ', hc⟩⟩

theorem solid_of_written {t : Text} (h : Written (.markup t)) : Solid t := by
  cases h with
  | strong => exact solid_replicate_succ rfl 1
  | emphasis => exact solid_singleton rfl
  | code u hne =>
    rw [Markdown.codeSpan] at hne ⊢
    split
    · rename_i hempty
      exact absurd (if_pos hempty) hne
    · have hfence : Solid (Markdown.backticks (Markdown.longestBackticks (Markdown.spanContent u) + 1)) :=
        solid_replicate_succ rfl _
      simpa only [List.append_assoc] using hfence.append hfence
        (Markdown.spanPadding (Markdown.spanContent u).head? ++ Markdown.spanContent u ++
          Markdown.spanPadding (Markdown.spanContent u).getLast?)
  | image n hsafe =>
    have hsource : (sourceOf n).isEmpty = false := by
      cases hs : sourceOf n with
      | nil =>
        rw [hs] at hsafe
        cases hsafe
      | cons c s => rfl
    simp only [imageMarkup, hsafe, hsource, Bool.not_true, Bool.or_false, Bool.false_eq_true,
      if_false]
    exact ⟨⟨'!', _, rfl, rfl⟩, ⟨_, ')', rfl, rfl⟩⟩
  | link label href _ _ => exact ⟨⟨'[', _, rfl, rfl⟩, ⟨_, ')', rfl, rfl⟩⟩

/-- Cutting a text into runs gives pieces that are white space altogether or not at all. -/
theorem uniform_of_mem_runs {t run : Text} (h : run ∈ Text.runs t) :
    ∃ c s, run = c :: s ∧ ∀ d ∈ s, Text.isSpace d = Text.isSpace c := by
  suffices huniform : ∀ run ∈ Text.runs t, ∃ c s, run = c :: s ∧
      ∀ d ∈ s, Text.isSpace d = Text.isSpace c from huniform run h
  clear h
  induction t with
  | nil => simp [Text.runs]
  | cons c t ih =>
    rw [Text.runs]
    split
    · rename_i d run rest hruns
      rw [hruns, List.forall_mem_cons] at ih
      obtain ⟨⟨d', s, hd, hs⟩, hrest⟩ := ih
      obtain ⟨rfl, rfl⟩ := List.cons.inj hd
      split
      · rename_i hcd
        refine List.forall_mem_cons.mpr ⟨⟨c, d :: run, rfl, ?_⟩, hrest⟩
        exact List.forall_mem_cons.mpr ⟨hcd.symm, fun e he => (hs e he).trans hcd.symm⟩
      · exact List.forall_mem_cons.mpr ⟨⟨c, [], rfl, by simp⟩,
          List.forall_mem_cons.mpr ⟨⟨d, run, rfl, hs⟩, hrest⟩⟩
    · exact List.forall_mem_cons.mpr ⟨⟨c, [], rfl, by simp⟩, ih⟩

/-- A run that is not white space has none in it. -/
theorem no_space_of_mem_runs {t run : Text} (h : run ∈ Text.runs t)
    (hrun : run.all Text.isSpace = false) : ∀ c ∈ run, Text.isSpace c = false := by
  obtain ⟨c, s, rfl, hs⟩ := uniform_of_mem_runs h
  have hc : Text.isSpace c = false := by
    rw [← Bool.not_eq_true]
    intro hc
    rw [List.all_eq_false] at hrun
    obtain ⟨d, hd, hnot⟩ := hrun
    rcases List.mem_cons.mp hd with rfl | hd
    · exact hnot hc
    · exact hnot ((hs d hd).trans hc)
  exact List.forall_mem_cons.mpr ⟨hc, fun d hd => (hs d hd).trans hc⟩

theorem solid_of_no_space {t : Text} (hne : t ≠ []) (h : ∀ c ∈ t, Text.isSpace c = false) :
    Solid t where
  starts := by
    obtain ⟨c, s, rfl⟩ := List.exists_cons_of_ne_nil hne
    exact ⟨c, s, rfl, h c (List.mem_cons_self ..)⟩
  ends := ⟨t.dropLast, t.getLast hne, (List.dropLast_concat_getLast hne).symm,
    h _ (List.getLast_mem hne)⟩

theorem solid_of_mem_runs {t run : Text} (h : run ∈ Text.runs t)
    (hrun : run.all Text.isSpace = false) : Solid run := by
  refine solid_of_no_space ?_ (no_space_of_mem_runs h hrun)
  obtain ⟨c, s, rfl, _⟩ := uniform_of_mem_runs h
  exact List.cons_ne_nil c s

/-- Collapsing keeps white space between pieces only. -/
theorem solid_settle {as : List Buffer.Atom}
    (h : ∀ g, Buffer.Atom.piece g ∈ as → Solid g.content) :
    Buffer.settle as = [] ∨ Solid (Buffer.raw (Buffer.settle as)) := by
  induction as with
  | nil => exact .inl rfl
  | cons a as ih =>
    have hrest := ih fun g hg => h g (List.mem_cons_of_mem _ hg)
    cases a with
    | piece g =>
      have hg := h g (List.mem_cons_self ..)
      have hraw : Buffer.raw (Buffer.settle (.piece g :: as)) =
          g.content ++ Buffer.raw (Buffer.settleAfter Buffer.Gap.none as) := rfl
      refine .inr ?_
      rcases hrest with hnil | hsolid
      · rw [hraw, (Buffer.settleAfter_eq_nil_iff _ as).mpr hnil, Buffer.raw, List.flatMap_nil,
          List.append_nil]
        exact hg
      · have hne : Buffer.settle as ≠ [] := by
          intro hnil
          rw [hnil] at hsolid
          exact hsolid.ne_nil rfl
        rw [hraw, Buffer.settleAfter_of_ne_nil hne, Buffer.raw_append, ← List.append_assoc]
        exact hg.append hsolid _
    | space => exact hrest
    | breaks n => exact hrest

/-- A run of inline nodes comes out empty or without white space at its edges. -/
theorem collapse_edges (scope : Scope) (ns : List Node) :
    collapse scope ns = [] ∨ Solid (collapse scope ns) := by
  have hpiece : ∀ g, Buffer.Atom.piece g ∈ Buffer.atoms id (buffer scope ns) → Solid g.content := by
    intro g hg
    rcases Buffer.of_piece_mem_atoms hg with ⟨m, rfl, hm⟩ | ⟨_, run, rfl, _, hmem, hrun⟩
    · exact solid_of_written (written_buffer scope ns _ hm)
    · exact solid_of_mem_runs hmem hrun
  refine (solid_settle hpiece).imp (fun hnil => ?_) id
  rw [collapse, Buffer.collapse, Buffer.collapseWith, Buffer.collapsedWith, hnil]
  rfl

end Inline

end Hypermark
