import Hypermark.Proofs.Success

/-!
# What a conversion can fail with

The renderer fails with numbers only that are too long to be read or written.  The tokenizer adds
markup that cannot be read at all, other parsers what they refuse, and choosing the parser adds
parsers that are not there.  So a conversion never ends with a fault of options or of files, and
with a parser that is there its faults are those of the document.

* `FailsBySize.bind`, `failsBySize_sequence`: the property is kept by everything that the renderer
  is built from.
* `failsBySize_blocks`: so it holds of all siblings.
* `pass_error`, `parse_error`: what reading markup can fail with.
* `exitCode_of_convert`, `convert_of_missing`: how a failed conversion is reported.
-/

namespace Hypermark

/-! ## Failures of size -/

namespace Traced

variable {α β : Type}

/-- If the computation fails, a number is too long. -/
def FailsBySize (x : Traced α) : Prop := ∀ f, x.outcome = .error f → ∃ size, f = .oversize size

theorem failsBySize_of_succeeds {x : Traced α} (h : x.Succeeds) : x.FailsBySize := by
  intro f hf
  obtain ⟨a, ha⟩ := h
  rw [ha] at hf
  cases hf

theorem failsBySize_pure (a : α) : (Traced.pure a).FailsBySize :=
  failsBySize_of_succeeds (succeeds_pure a)

theorem failsBySize_note (n : Notice) : (note n).FailsBySize :=
  failsBySize_of_succeeds ⟨(), rfl⟩

theorem FailsBySize.bind {x : Traced α} {f : α → Traced β} (hx : x.FailsBySize)
    (hf : ∀ a, (f a).FailsBySize) : (x.bind f).FailsBySize := by
  intro e he
  cases hxo : x.outcome with
  | error e' =>
    rw [bind_outcome_of_error hxo, Except.error.injEq] at he
    subst he
    exact hx e' hxo
  | ok a =>
    rw [bind_outcome_of_ok hxo] at he
    exact hf a e he

theorem failsBySize_ofSized (x : Except Oversize α) : (ofSized x).FailsBySize := by
  intro f hf
  cases x with
  | error size => exact ⟨size, (Except.error.inj hf).symm⟩
  | ok a => cases hf

theorem failsBySize_sequence {f : β → Traced α} {bs : List β} (h : ∀ b ∈ bs, (f b).FailsBySize) :
    (sequence (bs.map f)).FailsBySize := by
  induction bs with
  | nil => exact failsBySize_pure []
  | cons b bs ih =>
    rw [List.forall_mem_cons] at h
    exact h.1.bind fun a => (ih h.2).bind fun as => failsBySize_pure (a :: as)

end Traced

namespace Render

open Traced

variable {opts : Options}

/-! ## Parts of the renderer -/

theorem failsBySize_inline (scope : Scope) (nodes : List Node) :
    (Inline.render scope nodes).FailsBySize := failsBySize_of_succeeds (succeeds_render scope nodes)

theorem failsBySize_fallback (scope : Scope) (nodes : List Node) (f : Text → Text)
    (parts : List Text) :
    (if Text.allBlank (Text.joinBlocks parts) then Inline.render scope nodes
      else Traced.pure (f (Text.joinBlocks parts))).FailsBySize :=
  failsBySize_of_succeeds (succeeds_fallback scope nodes f parts)

theorem failsBySize_fencedCode (pre : Place) : (fencedCode opts pre).FailsBySize := by
  unfold fencedCode
  refine (failsBySize_ofSized _).bind fun _ => FailsBySize.bind ?_ fun info => failsBySize_pure _
  split
  · exact failsBySize_of_succeeds (succeeds_detect _)
  · exact failsBySize_pure _

theorem failsBySize_codeFigure {figure : Place} {parts : Figure.Parts}
    {before after : Traced (List Text)} (hb : before.FailsBySize) (ha : after.FailsBySize) :
    (codeFigure opts figure parts before after).FailsBySize := by
  unfold codeFigure
  refine (failsBySize_of_succeeds (succeeds_figureCaption parts)).bind fun caption => ?_
  refine FailsBySize.bind ?_ fun language => ?_
  · split
    · exact failsBySize_of_succeeds (succeeds_detectLanguage figure)
    · exact failsBySize_pure _
  refine (failsBySize_ofSized _).bind fun _ => (failsBySize_note _).bind fun _ => ?_
  exact hb.bind fun _ => ha.bind fun _ => failsBySize_pure _

/-- An item fails as its segments do, whatever is made of their texts. -/
theorem failsBySize_leading {segments : List Segment} {g : Leading → List Text → Traced Text}
    (h : ∀ s ∈ segments, s.rendering.FailsBySize)
    (hg : ∀ first texts, (g first texts).FailsBySize) :
    ((Markdown.leading segments).bind fun first =>
      (Traced.sequence (first.rest.map (·.rendering))).bind (g first)).FailsBySize := by
  have settled : ∀ first : Leading, (∀ s ∈ first.rest, s.rendering.FailsBySize) →
      ((Traced.pure first).bind fun first =>
        (Traced.sequence (first.rest.map (·.rendering))).bind (g first)).FailsBySize := by
    intro first hrest
    rw [Traced.pure_bind]
    exact (failsBySize_sequence hrest).bind (hg first)
  induction segments with
  | nil => exact settled _ h
  | cons s rest ih =>
    have hall := h
    rw [List.forall_mem_cons] at h
    rw [Markdown.leading]
    cases s.kind with
    | nestedList => exact settled _ hall
    | inline =>
      rw [bind_assoc]
      refine h.1.bind fun t => ?_
      split
      · exact ih h.2
      · exact settled _ h.2
    | block =>
      rw [bind_assoc]
      refine h.1.bind fun t => ?_
      split
      · exact settled _ h.2
      · exact settled _ h.2

theorem failsBySize_runSegment (scope : Scope) (nodes : List Node) :
    ∀ s ∈ runSegment scope nodes, s.rendering.FailsBySize := fun s hs =>
  failsBySize_of_succeeds (succeeds_runSegment scope nodes s hs)

/-! ## Tables -/

theorem failsBySize_valued {row : Row Cell} (h : ∀ c ∈ row.cells, c.content.FailsBySize) :
    (Table.valued row).FailsBySize :=
  (failsBySize_sequence h).bind fun _ => failsBySize_pure _

theorem failsBySize_spannedRow {row : Row Cell} (h : ∀ c ∈ row.cells, c.content.FailsBySize) :
    (Table.spannedRow row).FailsBySize := by
  refine (failsBySize_sequence fun c hc => ?_).bind fun cells => failsBySize_pure _
  refine (h c hc).bind fun value => ?_
  exact (failsBySize_ofSized _).bind fun _ => (failsBySize_ofSized _).bind fun _ =>
    failsBySize_pure _

theorem failsBySize_widenedHeader (cells : List (Cell × Text)) :
    (Table.widenedHeader cells).FailsBySize :=
  (failsBySize_sequence fun _ _ => failsBySize_ofSized _).bind fun _ => failsBySize_pure _

theorem failsBySize_renderRows {rows : List (Row Cell)}
    (h : ∀ row ∈ rows, ∀ c ∈ row.cells, c.content.FailsBySize) :
    (Table.renderRows rows).FailsBySize := by
  have hvalued : (Traced.sequence (rows.map Table.valued)).FailsBySize :=
    failsBySize_sequence fun row hrow => failsBySize_valued (h row hrow)
  have hspanned : (Traced.sequence (rows.map Table.spannedRow)).FailsBySize :=
    failsBySize_sequence fun row hrow => failsBySize_spannedRow (h row hrow)
  unfold Table.renderRows
  dsimp only
  split
  · refine (failsBySize_note _).bind fun _ => hspanned.bind fun rows => ?_
    split <;> exact failsBySize_pure _
  · split
    · refine (failsBySize_note _).bind fun _ => hvalued.bind fun rows => ?_
      split
      · exact failsBySize_pure _
      · exact (failsBySize_widenedHeader _).bind fun _ => failsBySize_pure _
    · refine hvalued.bind fun rows => ?_
      split <;> exact failsBySize_pure _

theorem failsBySize_table {rows : List (Row Cell)} {caption : Traced Text}
    (hc : caption.Succeeds) (h : ∀ row ∈ rows, ∀ c ∈ row.cells, c.content.FailsBySize) :
    (Table.render rows caption).FailsBySize := by
  unfold Table.render
  split
  · exact failsBySize_pure _
  · exact (failsBySize_renderRows h).bind fun _ =>
      (failsBySize_of_succeeds hc).bind fun _ => failsBySize_pure _

/-! ## The recursion -/

/-- What is known of a node once it is known of all nodes below it: how it fails as a block, how its
children do as the items of a list, and how the cells in it do. -/
structure Bounded (opts : Options) (n : Node) : Prop where
  block : ∀ scope, (block opts scope n).FailsBySize
  items : ∀ scope depth due, (items opts scope depth due n.children).FailsBySize
  rows : ∀ scope, ∀ row ∈ rowsOf opts scope n, ∀ c ∈ row.cells, c.content.FailsBySize

section Siblings

variable {ns : List Node} (h : ∀ n ∈ ns, n.Throughout (Bounded opts))
include h

theorem failsBySize_blocks (scope : Scope) (keep : Nat → Bool) (pending : List Node) :
    (blocks opts scope keep pending ns).FailsBySize := by
  have hrun (pending) : (run scope pending).FailsBySize :=
    failsBySize_of_succeeds (succeeds_run scope pending)
  induction ns generalizing keep pending with
  | nil =>
    rw [blocks]
    exact hrun pending
  | cons n ns ih =>
    rw [List.forall_mem_cons] at h
    rw [blocks]
    split
    · exact ih h.2 _ _
    · split
      · exact (hrun pending).bind fun _ => (h.1.here.block scope).bind fun _ =>
          (ih h.2 _ _).bind fun _ => failsBySize_pure _
      · split
        · exact ih h.2 _ _
        · exact ih h.2 _ _

theorem failsBySize_segments (scope : Scope) (depth : Nat) (pending : List Node) :
    ∀ s ∈ segments opts scope depth pending ns, s.rendering.FailsBySize := by
  induction ns generalizing pending with
  | nil =>
    rw [segments]
    exact failsBySize_runSegment scope pending
  | cons n ns ih =>
    rw [List.forall_mem_cons] at h
    have hpart (s : Segment) (hs : s.rendering.FailsBySize) :
        ∀ s' ∈ runSegment scope pending ++ s :: segments opts scope depth [] ns,
          s'.rendering.FailsBySize := by
      rw [List.forall_mem_append, List.forall_mem_cons]
      exact ⟨failsBySize_runSegment scope pending, hs, ih h.2 []⟩
    by_cases hb : n.isBlock = true
    · by_cases hl : ∃ ordered, n.role = .list ordered
      · obtain ⟨ordered, hrole⟩ := hl
        cases n with
        | element name attrs cs =>
          rw [segments_list hrole]
          refine hpart _ ((failsBySize_ofSized _).bind fun first => ?_)
          exact (h.1.here.items _ _ _).bind fun _ => failsBySize_pure _
        | text t => cases hrole
        | comment t => cases hrole
        | directive k t => cases hrole
      · rw [segments_block hb (not_exists.mp hl)]
        exact hpart _ (h.1.here.block scope)
    · rw [segments_inline (Bool.eq_false_iff.mpr hb)]
      exact ih h.2 _

theorem failsBySize_items (scope : Scope) (depth : Nat) (due : Option Int) :
    (items opts scope depth due ns).FailsBySize := by
  induction ns generalizing due with
  | nil =>
    rw [items]
    exact failsBySize_pure []
  | cons n ns ih =>
    rw [List.forall_mem_cons] at h
    cases n with
    | element name attrs cs =>
      simp only [items]
      split
      · refine (failsBySize_ofSized _).bind fun number => ?_
        refine (failsBySize_ofSized _).bind fun marker => ?_
        have hcs : ∀ c ∈ cs, c.Throughout (Bounded opts) := fun c hc => h.1.child hc
        have hitem : (Markdown.renderItem depth marker
            (segments opts (name :: scope) depth [] cs)).FailsBySize :=
          failsBySize_leading (failsBySize_segments hcs (name :: scope) depth [])
            fun _ _ => failsBySize_pure _
        exact hitem.bind fun _ => (ih h.2 _).bind fun _ => failsBySize_pure _
      · exact ih h.2 due
    | text t => simpa only [items] using ih h.2 due
    | comment t => simpa only [items] using ih h.2 due
    | directive k t => simpa only [items] using ih h.2 due

theorem failsBySize_cells (scope : Scope) :
    ∀ c ∈ cellsAmong opts scope ns, c.content.FailsBySize := by
  induction ns with
  | nil => simp [cellsAmong]
  | cons n ns ih =>
    rw [List.forall_mem_cons] at h
    cases n with
    | element name attrs cs =>
      have hcs : ∀ c ∈ cs, c.Throughout (Bounded opts) := fun c hc => h.1.child hc
      simp only [cellsAmong]
      split
      · rw [List.forall_mem_cons]
        exact ⟨(failsBySize_blocks hcs _ _ _).bind (failsBySize_fallback _ _ _), ih h.2⟩
      · exact ih h.2
    | text t => simpa only [cellsAmong] using ih h.2
    | comment t => simpa only [cellsAmong] using ih h.2
    | directive k t => simpa only [cellsAmong] using ih h.2

theorem failsBySize_rows (scope : Scope) :
    ∀ row ∈ rowsAmong opts scope ns, ∀ c ∈ row.cells, c.content.FailsBySize := by
  induction ns with
  | nil => simp [rowsAmong]
  | cons n ns ih =>
    rw [List.forall_mem_cons] at h
    rw [rowsAmong, List.forall_mem_append]
    exact ⟨h.1.here.rows scope, ih h.2⟩

end Siblings

theorem failsBySize_block {n : Node} (h : ∀ c ∈ n.children, c.Throughout (Bounded opts))
    (scope : Scope) : (block opts scope n).FailsBySize := by
  cases n with
  | element name attrs cs =>
    have hinline : (Inline.render (name :: scope) cs).FailsBySize := failsBySize_inline _ _
    have hmapped (f : Text → Text) :
        ((Inline.render (name :: scope) cs).bind (Traced.pure ∘ f)).FailsBySize :=
      hinline.bind fun _ => failsBySize_pure _
    have hblocks (keep) : (blocks opts (name :: scope) keep [] cs).FailsBySize :=
      failsBySize_blocks h _ _ _
    rw [block]
    split
    · split
      · exact (failsBySize_note _).bind fun _ => failsBySize_pure _
      · exact failsBySize_table (succeeds_caption _) (failsBySize_rows h _)
    · exact failsBySize_pure _
    · exact hmapped _
    · split
      · exact (hblocks _).bind fun _ => failsBySize_pure _
      · exact hmapped _
    · exact failsBySize_fencedCode _
    · exact (failsBySize_ofSized _).bind fun _ =>
        (failsBySize_items h _ _ _).bind fun _ => failsBySize_pure _
    · exact (failsBySize_of_succeeds (succeeds_definitions _ _ _)).bind fun _ =>
        failsBySize_pure _
    · split
      · exact failsBySize_codeFigure (hblocks _) (hblocks _)
      · exact (hblocks _).bind (failsBySize_fallback _ _ id)
    · exact (hblocks _).bind (failsBySize_fallback _ _ id)
    · exact hinline
  | text t =>
    rw [block]
    exact failsBySize_pure _
  | comment t =>
    rw [block]
    exact failsBySize_pure _
  | directive k t =>
    rw [block]
    exact failsBySize_pure _

theorem bounded (n : Node) : n.Throughout (Bounded opts) := by
  refine Node.throughout (fun n h => ?_) n
  refine ⟨failsBySize_block h, failsBySize_items h, fun scope => ?_⟩
  cases n with
  | element name attrs cs =>
    rw [rowsOf, List.forall_mem_append]
    refine ⟨?_, failsBySize_rows h _⟩
    split
    · rw [List.forall_mem_singleton]
      exact failsBySize_cells h _
    · simp
  | text t => simp [rowsOf]
  | comment t => simp [rowsOf]
  | directive k t => simp [rowsOf]

end Render

theorem failsBySize_convertTree (opts : Options) (ns : List Node) :
    (convertTree opts ns).FailsBySize := by
  refine Traced.FailsBySize.bind ?_ fun _ => Traced.failsBySize_pure _
  exact (Render.failsBySize_blocks (fun n _ => Render.bounded n) _ _ _).bind fun _ =>
    Traced.failsBySize_pure _

/-! ## Reading markup -/

/-- The document itself is at fault: a number in it, its markup, or what its parser makes of it. -/
def Fault.IsOfDocument (f : Fault) : Prop :=
  (∃ size, f = .oversize size) ∨ (∃ problem, f = .markup problem) ∨ ∃ message, f = .refused message

theorem Fault.IsOfDocument.exitCode {f : Fault} (h : f.IsOfDocument) : f.failure.exitCode = 1 := by
  rcases h with ⟨size, rfl⟩ | ⟨problem, rfl⟩ | ⟨message, rfl⟩ <;> rfl

theorem Fault.isOfDocument_markup (problem : MarkupProblem) : (markup problem).IsOfDocument :=
  .inr (.inl ⟨problem, rfl⟩)

namespace Markup

theorem startTagStep_error {t : Text} {f : Fault} (h : startTagStep t = .error f) :
    f.IsOfDocument := by
  unfold startTagStep at h
  split at h
  · cases h
  · split at h
    · exact .inl ⟨_, (Except.error.inj h).symm⟩
    · cases h
    · cases h

theorem sectionStep_error {t : Text} {f : Fault} (h : sectionStep t = .error f) :
    f.IsOfDocument := by
  unfold sectionStep at h
  split at h
  · cases h
  · split at h
    · dsimp only at h
      split at h
      · cases h
      · split at h
        · cases h
          exact Fault.isOfDocument_markup _
        · split at h
          · cases h
          · cases h
    · cases h
      exact Fault.isOfDocument_markup _

theorem bracketStep_error {t : Text} {f : Fault} (h : bracketStep t = .error f) :
    f.IsOfDocument := by
  unfold bracketStep at h
  split at h
  · cases h
  · cases h
  · cases h
  · exact sectionStep_error h
  · cases h
  · cases h
  · split at h
    · exact startTagStep_error h
    · cases h

theorem numberStep_error {t : Text} {f : Fault} (h : numberStep t = .error f) :
    f.IsOfDocument := by
  unfold numberStep at h
  split at h
  · cases h
  · dsimp only at h
    split at h
    · cases h
    · split at h
      · exact .inl ⟨_, (Except.error.inj h).symm⟩
      · cases h

theorem ampersandStep_error {final : Bool} {t : Text} {f : Fault}
    (h : ampersandStep final t = .error f) : f.IsOfDocument := by
  unfold ampersandStep at h
  split at h
  · cases h
  · exact numberStep_error h
  · split at h
    · cases h
    · cases h

theorem stepIn_error {raw : Option Text} {final : Bool} {t : Text} {f : Fault}
    (h : stepIn raw final t = .error f) : f.IsOfDocument := by
  unfold stepIn at h
  split at h
  · cases h
  · unfold step at h
    split at h
    · cases h
    · exact bracketStep_error h
    · exact ampersandStep_error h
    · cases h

theorem error_of_map {α β ε : Type} {x : Except ε α} {g : α → β} {e : ε}
    (h : x.map g = .error e) : x = .error e := by
  cases x with
  | error e' => exact congrArg Except.error (Except.error.inj h)
  | ok a => cases h

theorem pass_error {final : Bool} {raw : Option Text} {t : Text} {f : Fault}
    (h : pass final raw t = .error f) : f.IsOfDocument := by
  fun_induction pass final raw t with
  | case1 => cases h
  | case2 raw c cs fault hstep =>
    cases h
    exact stepIn_error hstep
  | case3 => cases h
  | case4 raw c cs tokens inside rest hstep ih => exact ih (error_of_map h)
  | case5 raw c cs hstep hfinal ih => exact ih (error_of_map h)
  | case6 => cases h

theorem parse_error {t : Text} {f : Fault} (h : parse t = .error f) : f.IsOfDocument := by
  have h : tokens t = .error f := error_of_map h
  unfold tokens at h
  cases hfirst : pass false none t with
  | error e =>
    rw [hfirst] at h
    cases h
    exact pass_error hfirst
  | ok first =>
    rw [hfirst] at h
    cases hsecond : pass true first.raw first.rest with
    | error e =>
      simp only [bind, Except.bind, hsecond] at h
      cases h
      exact pass_error hsecond
    | ok second =>
      simp only [bind, Except.bind, hsecond] at h
      cases h

end Markup

/-! ## Conversion -/

namespace Plugins

variable {plugins : Plugins} {parser : Parser} {opts : Options} {text : Text} {f : Fault}

/-- The parser is there: the built-in one always is. -/
def Has (plugins : Plugins) (parser : Parser) : Prop :=
  parser = .builtin ∨ plugins parser ≠ Option.none

/-- A parser that is there fails for what is in the document only. -/
theorem parse_error (hparser : plugins.Has parser) (h : plugins.parse parser text = .error f) :
    f.IsOfDocument := by
  unfold parse at h
  split at h
  · exact Markup.parse_error h
  · rename_i hother
    split at h
    · rename_i read hread
      cases hrun : read text with
      | ok nodes =>
        rw [hrun] at h
        cases h
      | error message =>
        rw [hrun] at h
        cases h
        exact .inr (.inr ⟨message, rfl⟩)
    · rename_i hnone
      exact absurd hnone (hparser.resolve_left fun hbuiltin => hother hbuiltin)

theorem parse_of_missing (hparser : ¬ plugins.Has parser) :
    plugins.parse parser text = .error (.parserMissing parser.name) := by
  obtain ⟨hother, hnone⟩ := not_or.mp hparser
  rw [not_not] at hnone
  unfold parse
  split
  · exact absurd rfl hother
  · rw [hnone]

/-- With a parser that is there, a conversion fails only for what is in the document, which is
reported as a failure that nobody expected. -/
theorem exitCode_of_convert (hparser : plugins.Has opts.parser)
    (h : (plugins.convert opts text).outcome = .error f) : f.failure.exitCode = 1 := by
  unfold convert at h
  split at h
  · cases h
  · rw [readDocument] at h
    cases hparse : plugins.parse opts.parser text with
    | error fault =>
      rw [hparse] at h
      cases h
      exact (parse_error hparser hparse).exitCode
    | ok nodes =>
      rw [hparse] at h
      have hsize : ∃ size, f = .oversize size := failsBySize_convertTree opts nodes f h
      exact Fault.IsOfDocument.exitCode (.inl hsize)

/-- That a parser is missing shows as soon as there is something to read. -/
theorem convert_of_missing (hparser : ¬ plugins.Has opts.parser)
    (htext : Text.allBlank text = false) :
    (plugins.convert opts text).outcome = .error (.parserMissing opts.parser.name) := by
  simp only [convert, htext, Bool.false_eq_true, if_false, readDocument, parse_of_missing hparser]
  rfl

end Plugins

end Hypermark
