import Hypermark.Proofs.MarkedDocument
import Hypermark.Proofs.Success

/-!
# Fenced blocks are well formed

A fence is as long as the code asks for, so only what stands beside it on the opening line can do
harm: a backtick there would make that line no fence, a line break would make it two.  The name of a
language is checked character by character; the caption of a figure is rendered Markdown, from which
the backticks are taken and in which no line break is left.

* `fenced_preformatted`, `codeFigure_outcome`: the block of each kind of element.
* `blocks_fenced`: both of them, whatever the elements hold.
-/

namespace Hypermark

open Text Markdown Traced

/-! ## Opening lines -/

theorem isInfo_nil : IsInfo [] := nofun

/-- Collapsed text has no white space of ASCII but the space, so it has no line breaks. -/
theorem eq_space_or_not_isSpace {t : Text} {c : Char} (h : c ∈ collapseSpaces t) :
    c = ' ' ∨ isSpace c = false := by
  rw [collapseSpaces, List.mem_flatMap] at h
  obtain ⟨run, hrun, hc⟩ := h
  by_cases hall : run.all isSpace = true
  · rw [if_pos hall] at hc
    exact .inl (List.mem_singleton.mp hc)
  · rw [if_neg hall] at hc
    exact .inr (Inline.no_space_of_mem_runs hrun (Bool.eq_false_iff.mpr hall) c hc)

theorem isInfo_filter_collapseSpaces (t : Text) :
    IsInfo ((collapseSpaces t).filter (!isBacktick ·)) := by
  intro c hc
  obtain ⟨hmem, hnot⟩ := List.mem_filter.mp hc
  refine ⟨?_, ?_, ?_⟩
  · rintro rfl
    exact absurd hnot (by decide)
  · rintro rfl
    exact absurd (eq_space_or_not_isSpace hmem) (by decide)
  · rintro rfl
    exact absurd (eq_space_or_not_isSpace hmem) (by decide)

/-- What a figure writes after its fence, from the name of a language and a caption. -/
theorem isInfo_info {language : Text} (h : IsInfo language) {t caption : Text}
    (hcaption : caption = collapseSpaces t) : IsInfo (Figure.Parts.info language caption) := by
  have hspace : IsInfo [' '] := (List.forall_mem_singleton ..).mpr (by decide)
  refine forall_mem_intercalate hspace fun part hpart => ?_
  have hmem := (List.mem_filter.mp hpart).1
  rw [List.mem_cons, List.mem_singleton] at hmem
  rcases hmem with rfl | rfl
  · exact h
  · rw [hcaption]
    exact isInfo_filter_collapseSpaces t

/-! ## Code lines -/

namespace Figure

theorem trimLines_subset {ls : List Text} {l : Text} (h : l ∈ trimLines ls) : l ∈ ls :=
  (List.dropWhile_sublist _).subset ((List.rdropWhile_prefix _ _).subset h)

theorem no_feed_lineText (p : Place) : '\n' ∉ lineText p := by
  intro h
  obtain ⟨c, hc, heq⟩ := List.mem_map.mp ((List.rdropWhile_prefix isBlank _).subset h)
  have hkept := (List.mem_filter.mp hc).2
  split at heq
  · cases heq
  · rw [heq] at hkept
    exact absurd hkept (by decide)

theorem no_feed_codeLines {pre : Place} : ∀ l ∈ codeLines pre, '\n' ∉ l := by
  intro l hl
  have hmem := trimLines_subset hl
  split at hmem
  · exact no_feed_of_mem_lines hmem
  · obtain ⟨p, _, rfl⟩ := List.mem_map.mp hmem
    exact no_feed_lineText p

theorem parts?_lines {figure : Place} {parts : Parts} (h : parts? figure = some parts) :
    parts.lines = codeLines parts.pre ∧ parts.lines ≠ [] := by
  rw [parts?] at h
  split at h
  · split at h
    · split at h
      · cases h
      · rename_i hne
        cases h
        exact ⟨rfl, fun hnil => hne (List.isEmpty_iff.mpr hnil)⟩
    · cases h
  · cases h

theorem lines_code {figure : Place} {parts : Parts} (h : parts? figure = some parts) :
    lines parts.code = codeLines parts.pre := by
  obtain ⟨hlines, hne⟩ := parts?_lines h
  rw [Parts.code, lines_unlines hne fun l hl => ?_, hlines]
  rw [hlines] at hl
  exact no_feed_codeLines l hl

end Figure

/-! ## Blocks -/

namespace Render

/-- A block between what stands before it and after it. -/
def surrounded (before after : Traced (List Text)) (t : Text) : Traced Text :=
  before.bind fun before => after.bind fun after =>
    Traced.pure (joinBlocks (part (joinBlocks before) ++ [t] ++ part (joinBlocks after)))

section Figures

variable {opts : Options} {figure : Place} {parts : Figure.Parts}

theorem figureCaption_outcome (parts : Figure.Parts) :
    ∃ t, (figureCaption parts).outcome = .ok (collapseSpaces t) := by
  rw [figureCaption]
  split
  · exact ⟨_, rfl⟩
  · exact ⟨[], rfl⟩

theorem language_outcome (opts : Options) (figure : Place) : ∃ language, IsInfo language ∧
    (if opts.detectLanguage then Figure.detectLanguage figure
      else Traced.pure []).outcome = .ok language := by
  split
  · rw [Figure.detectLanguage]
    split
    · exact ⟨_, Place.isInfo_of_isNameChar (List.all_eq_true.mp (Language.all_isNameChar_safe _)), rfl⟩
    · exact ⟨[], isInfo_nil, rfl⟩
  · exact ⟨[], isInfo_nil, rfl⟩

/-- The rendering of a figure, with the texts of its caption and its language. -/
theorem codeFigure_outcome_of {caption language : Text}
    (hcaption : (figureCaption parts).outcome = .ok caption)
    (hlanguage : (if opts.detectLanguage then Figure.detectLanguage figure
      else Traced.pure []).outcome = .ok language) (before after : Traced (List Text)) :
    (codeFigure opts figure parts before after).outcome =
      ((fence opts parts.code).bind fun _ => surrounded before after
        (fencedBlock opts.minFence (Figure.Parts.info language caption) parts.code)).outcome := by
  rw [codeFigure, bind_outcome_of_ok hcaption, bind_outcome_of_ok hlanguage]
  refine bind_outcome_congr rfl fun _ _ => ?_
  rw [bind_outcome_of_ok (outcome_note _)]
  rfl

theorem codeFigure_outcome (opts : Options) {figure : Place} {parts : Figure.Parts}
    (h : Figure.parts? figure = some parts) (before after : Traced (List Text)) :
    ∃ info block, Fenced (fenceLength opts.minFence parts.code) info
        (Figure.codeLines parts.pre) block ∧
      (codeFigure opts figure parts before after).outcome =
        ((fence opts parts.code).bind fun _ => surrounded before after block).outcome := by
  obtain ⟨t, hcaption⟩ := figureCaption_outcome parts
  obtain ⟨language, hinfo, hlanguage⟩ := language_outcome opts figure
  have hfenced := fenced_fencedBlock opts.three_le_minFence
    (isInfo_info (t := t) hinfo rfl) parts.code
  rw [Figure.lines_code h] at hfenced
  exact ⟨_, _, hfenced, codeFigure_outcome_of hcaption hlanguage ..⟩

theorem block_codeFigure {scope : Scope} {name : Text} {attrs : Attributes} {cs : List Node}
    (hrole : (Node.element name attrs cs).role = .figure)
    (hparts : Figure.parts? ⟨[], scope, .element name attrs cs⟩ = some parts) :
    block opts scope (.element name attrs cs) =
      codeFigure opts ⟨[], scope, .element name attrs cs⟩ parts
        (blocks opts (name :: scope) parts.isBefore [] cs)
        (blocks opts (name :: scope) parts.isAfter [] cs) := by
  rw [block]
  simp only [hrole]
  rw [hparts]

end Figures

end Render

/-- Every fenced block is well formed: the block of a preformatted element, and in the rendering of
a figure that has code, the one between what stands before the code and after it.  Either element
comes to nothing but a fault if its fence does. -/
theorem blocks_fenced (opts : Options) (scope : Scope) (name : Text) (attrs : Attributes)
    (cs : List Node) :
    let n := Node.element name attrs cs
    let place : Place := ⟨[], scope, n⟩
    (n.role = .preformatted → ∃ length info block, opts.minFence ≤ length ∧
      Fenced length info (lines place.code) block ∧
      (Render.block opts scope n).outcome =
        (Render.fence opts place.code).outcome.map fun _ => block) ∧
    (n.role = .figure → ∀ parts, Figure.parts? place = some parts →
      ∃ length info block, opts.minFence ≤ length ∧
        Fenced length info (Figure.codeLines parts.pre) block ∧
        (Render.block opts scope n).outcome =
          ((Render.fence opts parts.code).bind fun _ =>
            Render.surrounded (Render.blocks opts (name :: scope) parts.isBefore [] cs)
              (Render.blocks opts (name :: scope) parts.isAfter [] cs) block).outcome) := by
  intro n place
  constructor
  · intro hrole
    exact ⟨_, _, _, Nat.le_max_left .., place.fenced_code opts,
      Render.block_preformatted opts scope hrole⟩
  · intro hrole parts hparts
    obtain ⟨info, block, hfenced, houtcome⟩ := Render.codeFigure_outcome opts hparts
      (Render.blocks opts (name :: scope) parts.isBefore [] cs)
      (Render.blocks opts (name :: scope) parts.isAfter [] cs)
    rw [Render.block_codeFigure hrole hparts]
    exact ⟨_, info, block, Nat.le_max_left .., hfenced, houtcome⟩

/-- A line of three backticks as code, and a caption with a code span. -/
def Figure.ticks : List Node := [.element "pre".toList [] [.text "```".toList],
  .element "figcaption".toList [] [.element "code".toList [] [.text "x".toList]]]

theorem blocks_fenced_in_figure :
    let n := Node.element "figure".toList [("class".toList, some "code".toList)] Figure.ticks
    n.role = .figure ∧ ∃ parts, Figure.parts? ⟨[], [Place.documentTag], n⟩ = some parts ∧
      Figure.codeLines parts.pre = ["```".toList] ∧
      (Render.block Options.standard [Place.documentTag] n).outcome =
        .ok "````x\n```\n````".toList ∧
      ∃ length info, Options.standard.minFence ≤ length ∧
        Fenced length info ["```".toList] "````x\n```\n````".toList := by
  let scope := ["figure".toList, Place.documentTag]
  let parts : Figure.Parts := ⟨⟨[0], scope, .element "pre".toList [] [.text "```".toList]⟩,
    ["```".toList], some ⟨[1], scope,
      .element "figcaption".toList [] [.element "code".toList [] [.text "x".toList]]⟩⟩
  obtain ⟨length, info, written, hlength, hfenced, houtcome⟩ :=
    (blocks_fenced Options.standard [Place.documentTag] "figure".toList
      [("class".toList, some "code".toList)] Figure.ticks).2 rfl parts rfl
  have hblock : (Render.block Options.standard [Place.documentTag] (.element "figure".toList
      [("class".toList, some "code".toList)] Figure.ticks)).outcome =
        .ok "````x\n```\n````".toList := rfl
  have hfence : Render.fence Options.standard parts.code = Traced.pure () :=
    Render.fence_eq_pure (by decide)
  have hbefore : Render.blocks Options.standard scope parts.isBefore [] Figure.ticks =
      Traced.pure [] := rfl
  have hafter : Render.blocks Options.standard scope parts.isAfter [] Figure.ticks =
      Traced.pure [] := rfl
  have hjoin : joinBlocks [written] = written := List.intercalate_singleton
  -- Nothing stands before the code or after it, so the figure is its fenced block.
  rw [hblock, hfence, Traced.pure_bind, Render.surrounded, hbefore, hafter] at houtcome
  obtain rfl : "````x\n```\n````".toList = written := (Except.ok.inj houtcome).trans hjoin
  exact ⟨rfl, parts, rfl, rfl, hblock, length, info, hlength, hfenced⟩

end Hypermark
