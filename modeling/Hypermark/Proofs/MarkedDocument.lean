import Hypermark.Convert
import Hypermark.Proofs.BlankRuns
import Hypermark.Proofs.FenceScan
import Hypermark.Proofs.Numbers
import Hypermark.Proofs.Outcome
import Hypermark.Proofs.Recursion

/-!
# Documents of paragraphs and code blocks

What such a document consists of, line by line and before any blank line is left out, with the mark
of being code on the lines between two fences.  This is what the renderer knows; the conversion has
to find it again in the text.

* `fencedCode_outcome`: a preformatted element as its fences and its code, if the fences fit.
* `convertTree_outcome`: the document is what squeezing leaves of its lines.
* `framed_documentLines`: it starts and ends outside of code, in lines with text.
-/

namespace Hypermark

open Text Markdown Traced

/-! ## Code -/

namespace Place

/-- The language that the opening line of its fence carries. -/
def codeInfo (opts : Options) (pre : Place) : Text :=
  if opts.detectLanguage then
    match (((pre.findTag? Figure.codeTag).toList ++ [pre]).map (·.node)).findSome? Language.ofNode? with
    | some t => Language.safe t
    | none => []
  else []

theorem no_return_code (pre : Place) : '\r' ∉ pre.code := by
  intro h
  have hmem := (List.rdropWhile_prefix isBlank _).subset h
  split at hmem
  · exact not_mem_unifyBreaks _ (List.mem_of_mem_tail hmem)
  · exact not_mem_unifyBreaks _ hmem

theorem all_isNameChar_codeInfo (opts : Options) (pre : Place) :
    ∀ c ∈ pre.codeInfo opts, Language.isNameChar c = true := by
  rw [codeInfo]
  split
  · split
    · exact List.all_eq_true.mp (Language.all_isNameChar_safe _)
    · simp
  · simp

theorem isInfo_of_isNameChar {t : Text} (h : ∀ c ∈ t, Language.isNameChar c = true) : IsInfo t := by
  intro c hc
  have hname := h c hc
  refine ⟨?_, ?_, ?_⟩ <;> rintro rfl <;> exact absurd hname (by decide)

/-- The block that a preformatted element is rendered as. -/
theorem fenced_code (opts : Options) (pre : Place) :
    Fenced (fenceLength opts.minFence pre.code) (pre.codeInfo opts) (lines pre.code)
      (fencedBlock opts.minFence (pre.codeInfo opts) pre.code) :=
  fenced_fencedBlock opts.three_le_minFence
    (isInfo_of_isNameChar (pre.all_isNameChar_codeInfo opts)) pre.code

theorem no_return_fencedBlock (opts : Options) (pre : Place) :
    '\r' ∉ fencedBlock opts.minFence (pre.codeInfo opts) pre.code := by
  have hfenced := fenced_code opts pre
  have hfence := fun n => not_mem_backticks (c := '\r') (by decide) n
  refine not_mem_of_lines (by decide) ?_
  rw [hfenced.lines_eq, List.forall_mem_cons, List.forall_mem_append, List.forall_mem_singleton]
  refine ⟨fun h => ?_, fun l hl h => ?_, hfence _⟩
  · exact (List.mem_append.mp h).elim (hfence _) fun h => (hfenced.isInfo _ h).2.2 rfl
  · exact pre.no_return_code ((infix_of_mem_lines hl).subset h)

end Place

namespace Render

theorem fencedCode_outcome (opts : Options) (pre : Place) : (fencedCode opts pre).outcome =
    (fence opts pre.code).outcome.map fun _ =>
      fencedBlock opts.minFence (pre.codeInfo opts) pre.code := by
  refine fence_bind_outcome ?_
  rw [Place.codeInfo]
  split
  · rw [Language.detect]
    cases (((pre.findTag? Figure.codeTag).toList ++ [pre]).map (·.node)).findSome?
      Language.ofNode? with
    | none => rfl
    | some t => rfl
  · rfl

theorem block_preformatted (opts : Options) (scope : Scope) {n : Node}
    (hrole : n.role = .preformatted) :
    let pre : Place := ⟨[], scope, n⟩
    (block opts scope n).outcome = (fence opts pre.code).outcome.map fun _ =>
      fencedBlock opts.minFence (pre.codeInfo opts) pre.code := by
  intro pre
  cases n with
  | element name attrs cs =>
    rw [block]
    simp only [hrole]
    exact fencedCode_outcome opts _
  | text t => cases hrole
  | comment t => cases hrole
  | directive k t => cases hrole

end Render

/-! ## Blocks -/

namespace Node

/-- The element as a child of the document. -/
def top (n : Node) : Place := ⟨[], [Place.documentTag], n⟩

/-- A paragraph or a preformatted element. -/
def IsProseOrCode (n : Node) : Prop := n.role = .paragraph ∨ n.role = .preformatted

/-- The fence of a block of code fits. -/
def FenceFits (opts : Options) (n : Node) : Prop :=
  n.role = .preformatted → Render.FenceFits opts n.top.code

/-- The text that a block is rendered as. -/
def blockText (opts : Options) (n : Node) : Text :=
  if n.role = .preformatted then
    fencedBlock opts.minFence (n.top.codeInfo opts) n.top.code
  else Inline.collapse n.top.innerScope n.children

/-- The lines of a paragraph, without spaces and tabs at their ends. -/
def proseLines (n : Node) : List Text :=
  (lines (unifyBreaks (Inline.collapse n.top.innerScope n.children))).map trimLine

/-- The lines of a block: a paragraph, or the lines of the code between two fences. -/
def blockLines (opts : Options) (n : Node) : List Line :=
  if n.role = .preformatted then
    ⟨codeFence opts.minFence n.top.code ++ n.top.codeInfo opts, false⟩ ::
      ((lines n.top.code).map fun l => ⟨trimLine l, true⟩) ++
        [⟨codeFence opts.minFence n.top.code, false⟩]
  else n.proseLines.map fun l => ⟨l, false⟩

end Node

/-- The blocks that are not blank. -/
def shownBlocks (opts : Options) (ns : List Node) : List Node :=
  ns.filter fun n => !allBlank (n.blockText opts)

/-- The lines of a document, with an empty line between each two blocks. -/
def documentLines (opts : Options) (ns : List Node) : List Line :=
  [⟨[], false⟩].intercalate ((shownBlocks opts ns).map (Node.blockLines opts))

section Blocks

variable {opts : Options} {n : Node}

theorem block_outcome (h : n.IsProseOrCode) (hfits : n.FenceFits opts) :
    (Render.block opts [Place.documentTag] n).outcome = .ok (n.blockText opts) := by
  rcases h with h | h
  · cases n with
    | element name attrs cs =>
      simp only [Render.block, h, Node.blockText]
      rfl
    | text t => cases h
    | comment t => cases h
    | directive k t => cases h
  · have hfence : Render.fence opts n.top.code = Traced.pure () := Render.fence_eq_pure (hfits h)
    rw [Node.blockText, if_pos h]
    refine (Render.block_preformatted opts _ h).trans ?_
    exact congrArg (fun x : Traced Unit => x.outcome.map _) hfence

theorem blocks_outcome {ns : List Node} (h : ∀ n ∈ ns, n.IsProseOrCode)
    (hfits : ∀ n ∈ ns, n.FenceFits opts) :
    (Render.blocks opts [Place.documentTag] Render.keepAll [] ns).outcome =
      .ok ((shownBlocks opts ns).map (Node.blockText opts)) := by
  induction ns with
  | nil => rfl
  | cons n ns ih =>
    rw [List.forall_mem_cons] at h hfits
    have hblock : n.isBlock = true := by
      rw [Node.isBlock]
      rcases h.1 with hrole | hrole <;> rw [hrole] <;> rfl
    have hkeep : (!Render.keepAll 0) = false := rfl
    have hrest : (Render.blocks opts [Place.documentTag] (fun i => Render.keepAll (i + 1)) []
        ns).outcome = .ok ((shownBlocks opts ns).map (Node.blockText opts)) := ih h.2 hfits.2
    rw [Render.blocks, hkeep, if_neg Bool.false_ne_true, if_pos hblock]
    refine bind_outcome_eq_ok_iff.mpr ⟨[], rfl, bind_outcome_eq_ok_iff.mpr ⟨_,
      block_outcome h.1 hfits.1, bind_outcome_eq_ok_iff.mpr ⟨_, hrest, congrArg Except.ok ?_⟩⟩⟩
    rw [List.nil_append, Render.part, shownBlocks, shownBlocks, List.filter_cons]
    by_cases hblank : allBlank (n.blockText opts) = true
    · rw [if_pos hblank, hblank]
      rfl
    · rw [if_neg hblank, Bool.eq_false_iff.mpr hblank]
      rfl

end Blocks

/-! ## Lines -/

theorem trimLine_of_no_space {l : Text} (h : ∀ c ∈ l, c ≠ ' ' ∧ c ≠ '\t') : trimLine l = l :=
  dropEndWhile_of_none fun c hc => by
    rw [Bool.or_eq_false_iff, beq_eq_false_iff_ne, beq_eq_false_iff_ne]
    exact h c hc

section Preformatted

variable (opts : Options) (pre : Place)

theorem mem_codeFence {least : Nat} {code : Text} {c : Char} (h : c ∈ codeFence least code) :
    c = backtick := List.eq_of_mem_replicate h

/-- The opening line holds backticks and the name of a language only. -/
theorem mem_openingLine {c : Char}
    (h : c ∈ codeFence opts.minFence pre.code ++ pre.codeInfo opts) :
    c = backtick ∨ Language.isNameChar c = true :=
  (List.mem_append.mp h).imp mem_codeFence (pre.all_isNameChar_codeInfo opts c)

theorem not_mem_openingLine {c : Char} (hc : c ≠ backtick) (hname : Language.isNameChar c = false) :
    c ∉ codeFence opts.minFence pre.code ++ pre.codeInfo opts := by
  intro h
  rcases mem_openingLine opts pre h with h | h
  · exact hc h
  · rw [hname] at h
    cases h

theorem trimLine_openingLine :
    trimLine (codeFence opts.minFence pre.code ++ pre.codeInfo opts) =
      codeFence opts.minFence pre.code ++ pre.codeInfo opts := by
  refine trimLine_of_no_space fun c hc => ⟨?_, ?_⟩
  · rintro rfl
    exact not_mem_openingLine opts pre (by decide) (by decide) hc
  · rintro rfl
    exact not_mem_openingLine opts pre (by decide) (by decide) hc

theorem trimLine_codeFence (least : Nat) (code : Text) :
    trimLine (codeFence least code) = codeFence least code := by
  refine trimLine_of_no_space fun c hc => ?_
  rw [mem_codeFence hc]
  decide

theorem lines_fencedBlock :
    lines (unifyBreaks (fencedBlock opts.minFence (pre.codeInfo opts) pre.code)) =
      (codeFence opts.minFence pre.code ++ pre.codeInfo opts) ::
        (lines pre.code ++ [codeFence opts.minFence pre.code]) := by
  rw [unifyBreaks_of_no_return (pre.no_return_fencedBlock opts), (pre.fenced_code opts).lines_eq]
  rfl

theorem solid_fencedBlock :
    Inline.Solid (fencedBlock opts.minFence (pre.codeInfo opts) pre.code) := by
  have hfence : Inline.Solid (codeFence opts.minFence pre.code) := by
    obtain ⟨m, hm⟩ := Nat.exists_eq_succ_of_ne_zero
      (Nat.pos_iff_ne_zero.mp (fenceLength_pos opts.minFence pre.code))
    rw [codeFence, hm]
    exact Inline.solid_replicate_succ rfl m
  have hsolid := hfence.append hfence (pre.codeInfo opts ++ '\n' :: pre.code ++ ['\n'])
  rw [fencedBlock]
  simpa only [List.append_assoc, List.cons_append, List.nil_append] using hsolid

end Preformatted

section Blocks

variable {opts : Options} {n : Node}

theorem map_text_blockLines :
    (n.blockLines opts).map Line.text = (lines (unifyBreaks (n.blockText opts))).map trimLine := by
  rw [Node.blockLines, Node.blockText]
  split
  · rw [lines_fencedBlock]
    simp only [List.map_cons, List.map_append, List.map_map, List.map_nil, trimLine_openingLine,
      trimLine_codeFence]
    rfl
  · rw [List.map_map, Node.proseLines]
    exact List.map_id _

/-- A block that is shown has no white space at its edges. -/
theorem solid_blockText (h : allBlank (n.blockText opts) = false) :
    Inline.Solid (n.blockText opts) := by
  rw [Node.blockText] at h ⊢
  split
  · exact solid_fencedBlock opts n.top
  · rename_i hrole
    rw [if_neg hrole] at h
    refine (Inline.collapse_edges n.top.innerScope n.children).resolve_left fun hnil => ?_
    rw [hnil] at h
    cases h

end Blocks

/-! ## Whole documents -/

/-- A list of lines that starts and ends outside of code, in lines with text, and in which no blank
line of code stands next to another blank line. -/
structure Framed (ls : List Line) : Prop where
  first : ∃ l rest, ls = l :: rest ∧ l.isCode = false ∧ l.text ≠ []
  last : ∃ init l, ls = init ++ [l] ∧ l.isCode = false ∧ l.text ≠ []
  uniform : Uniform ls

theorem uniform_of_forall {ls : List Line} {c : Bool} (h : ∀ l ∈ ls, l.isCode = c) :
    Uniform ls := by
  have hpairs : ls.Pairwise fun a b => a.isBlank = true → b.isBlank = true → a.isCode = b.isCode :=
    List.pairwise_of_forall_mem_list fun a ha b hb _ _ => (h a ha).trans (h b hb).symm
  exact hpairs.isChain

/-- The first and the last line of a text without white space at its edges are not empty. -/
theorem exists_edge_lines {t : Text} (h : Inline.Solid t) :
    (∃ l rest, (lines t).map trimLine = l :: rest ∧ l ≠ []) ∧
      ∃ init l, (lines t).map trimLine = init ++ [l] ∧ l ≠ [] := by
  constructor
  · obtain ⟨c, s, rfl, hc⟩ := h.starts
    obtain ⟨l, rest, hlines, hmem⟩ := exists_first_line (ne_feed_of_not_isSpace hc) s
    exact ⟨trimLine l, rest.map trimLine, by rw [hlines, List.map_cons], trimLine_ne_nil hmem hc⟩
  · obtain ⟨s, c, rfl, hc⟩ := h.ends
    obtain ⟨init, l, hlines, hmem⟩ := exists_last_line (ne_feed_of_not_isSpace hc) s
    refine ⟨init.map trimLine, trimLine l, ?_, trimLine_ne_nil hmem hc⟩
    rw [hlines, List.map_append, List.map_singleton]

section Blocks

variable {opts : Options} {n : Node}

theorem codeFence_ne_nil (opts : Options) (code : Text) : codeFence opts.minFence code ≠ [] := by
  intro hnil
  have hlength := length_codeFence opts.minFence code
  rw [hnil] at hlength
  exact absurd hlength (Nat.ne_of_lt (fenceLength_pos opts.minFence code))

theorem allBlank_codeFence (opts : Options) (code : Text) :
    allBlank (codeFence opts.minFence code) = false := by
  obtain ⟨c, hc⟩ := List.exists_mem_of_ne_nil _ (codeFence_ne_nil opts code)
  refine not_allBlank_of_mem hc ?_
  rw [mem_codeFence hc]
  decide

theorem allBlank_openingLine (opts : Options) (code info : Text) :
    allBlank (codeFence opts.minFence code ++ info) = false :=
  not_allBlank_of_infix (allBlank_codeFence opts code) (List.prefix_append _ info).isInfix

theorem framed_codeBlock (hrole : n.role = .preformatted) : Framed (n.blockLines opts) := by
  rw [Node.blockLines, if_pos hrole]
  have hne := codeFence_ne_nil opts n.top.code
  refine ⟨⟨_, _, List.cons_append, rfl, ?_⟩, ⟨_, _, rfl, rfl, hne⟩, ?_⟩
  · exact List.append_ne_nil_of_left_ne_nil hne _
  -- Both fences have text, so only the lines between them matter.
  refine List.isChain_append.mpr ⟨List.isChain_cons.mpr ⟨fun l _ hblank => ?_, ?_⟩,
    List.isChain_singleton _, fun k _ l hl _ hblank => ?_⟩
  · rw [Line.isBlank, allBlank_openingLine] at hblank
    cases hblank
  · exact uniform_of_forall (List.forall_mem_map.mpr fun _ _ => rfl)
  · obtain rfl := Option.some.inj hl
    rw [Line.isBlank, allBlank_codeFence] at hblank
    cases hblank

theorem framed_prose (hrole : n.role ≠ .preformatted)
    (hshown : allBlank (n.blockText opts) = false) : Framed (n.blockLines opts) := by
  have hsolid := solid_unifyBreaks (solid_blockText hshown)
  rw [Node.blockText, if_neg hrole] at hsolid
  obtain ⟨⟨l, rest, hfirst, hl⟩, ⟨init, k, hlast, hk⟩⟩ := exists_edge_lines hsolid
  rw [Node.blockLines, if_neg hrole, Node.proseLines]
  refine ⟨⟨⟨l, false⟩, rest.map (⟨·, false⟩), ?_, rfl, hl⟩,
    ⟨init.map (⟨·, false⟩), ⟨k, false⟩, ?_, rfl, hk⟩, ?_⟩
  · rw [hfirst, List.map_cons]
  · rw [hlast, List.map_append, List.map_singleton]
  · exact uniform_of_forall (List.forall_mem_map.mpr fun _ _ => rfl)

theorem framed_blockLines (hshown : allBlank (n.blockText opts) = false) :
    Framed (n.blockLines opts) := by
  by_cases hrole : n.role = .preformatted
  · exact framed_codeBlock hrole
  · exact framed_prose hrole hshown

end Blocks

/-- Two framed lists with an empty line between them. -/
theorem Framed.append {as bs : List Line} (ha : Framed as) (hb : Framed bs) :
    Framed (as ++ [⟨[], false⟩] ++ bs) := by
  obtain ⟨l, rest, hfirst, hl⟩ := ha.first
  obtain ⟨m, more, hfirst', hm⟩ := hb.first
  obtain ⟨init, k, hlast, hk⟩ := ha.last
  obtain ⟨init', j, hlast', hj⟩ := hb.last
  refine ⟨⟨l, rest ++ [⟨[], false⟩] ++ bs, by rw [hfirst]; rfl, hl⟩,
    ⟨as ++ [⟨[], false⟩] ++ init', j, by rw [hlast']; simp, hj⟩, ?_⟩
  refine List.isChain_append.mpr ⟨List.isChain_append.mpr ⟨ha.uniform, List.isChain_singleton _,
    fun x hx y hy _ _ => ?_⟩, hb.uniform, fun x hx y hy _ _ => ?_⟩
  · rw [hlast, List.getLast?_concat] at hx
    obtain rfl := Option.some.inj hx
    obtain rfl := Option.some.inj hy
    exact hk.1
  · rw [List.getLast?_concat] at hx
    rw [hfirst'] at hy
    obtain rfl := Option.some.inj hx
    obtain rfl := Option.some.inj hy
    exact hm.1.symm

theorem framed_intercalate {b : List Line} {bs : List (List Line)} (h : ∀ ls ∈ b :: bs, Framed ls) :
    Framed ([⟨[], false⟩].intercalate (b :: bs)) := by
  induction bs generalizing b with
  | nil =>
    rw [List.intercalate_singleton]
    exact h b (List.mem_cons_self ..)
  | cons c bs ih =>
    rw [List.forall_mem_cons] at h
    rw [List.intercalate_cons_cons]
    exact h.1.append (ih h.2)

section Documents

variable (opts : Options) {ns : List Node}

theorem not_allBlank_of_mem_shown {n : Node} (h : n ∈ shownBlocks opts ns) :
    allBlank (n.blockText opts) = false := by
  have htext := (List.mem_filter.mp h).2
  rwa [Bool.not_eq_true'] at htext

/-- A document without blocks has no lines. -/
theorem documentLines_eq_nil_or_framed (ns : List Node) :
    documentLines opts ns = [] ∧ shownBlocks opts ns = [] ∨ Framed (documentLines opts ns) := by
  rw [documentLines]
  cases hshown : shownBlocks opts ns with
  | nil => exact .inl ⟨rfl, rfl⟩
  | cons n more =>
    have hframed : ∀ ls ∈ (n :: more).map (Node.blockLines opts), Framed ls := by
      rw [List.forall_mem_map, ← hshown]
      exact fun m hm => framed_blockLines (not_allBlank_of_mem_shown opts hm)
    exact .inr (framed_intercalate hframed)

theorem map_intercalate {α β : Type} (g : α → β) (sep : List α) (parts : List (List α)) :
    (sep.intercalate parts).map g = (sep.map g).intercalate (parts.map (List.map g)) := by
  induction parts with
  | nil => rfl
  | cons a parts ih =>
    cases parts with
    | nil => rw [List.map_singleton, List.intercalate_singleton, List.intercalate_singleton]
    | cons b parts =>
      simp only [List.map_cons] at ih ⊢
      rw [List.intercalate_cons_cons, List.intercalate_cons_cons, List.map_append, List.map_append,
        ih]

theorem map_text_documentLines {n : Node} {more : List Node}
    (hshown : shownBlocks opts ns = n :: more) :
    (documentLines opts ns).map Line.text =
      (lines (unifyBreaks (joinBlocks ((n :: more).map (Node.blockText opts))))).map trimLine := by
  have hsolid : ∀ t ∈ (n :: more).map (Node.blockText opts), Inline.Solid t := by
    rw [List.forall_mem_map, ← hshown]
    exact fun m hm => solid_blockText (not_allBlank_of_mem_shown opts hm)
  have hblocks : ((n :: more).map (Node.blockLines opts)).map (List.map Line.text) =
      (((n :: more).map (Node.blockText opts)).map fun t => lines (unifyBreaks t)).map
        (List.map trimLine) := by
    rw [List.map_map, List.map_map, List.map_map]
    exact List.map_congr_left fun m _ => map_text_blockLines
  have hlines : lines (unifyBreaks (joinBlocks ((n :: more).map (Node.blockText opts)))) =
      [[]].intercalate (((n :: more).map (Node.blockText opts)).map fun t => lines (unifyBreaks t)) :=
    lines_joinBlocks hsolid
  rw [documentLines, hshown, map_intercalate, hblocks, hlines, map_intercalate]
  rfl

/-- What squeezing leaves of the lines of a document, without empty ones at the end. -/
def shownLines (opts : Options) (ns : List Node) : List Text :=
  (squeezeFrom opts.maxBlankLines none 0 ((documentLines opts ns).map Line.text)).rdropWhile
    List.isEmpty

/-- The first line is kept, since at least one blank line is. -/
theorem squeezeFrom_first (l : Text) (ls : List Text) :
    ∃ rest, squeezeFrom opts.maxBlankLines none 0 (l :: ls) = l :: rest := by
  have hmost : ((0 + 1 : Nat) : Int) ≤ opts.maxBlankLines := by
    have := opts.one_le_maxBlankLines
    omega
  simp only [squeezeFrom, if_pos hmost]
  split
  · exact ⟨_, rfl⟩
  split
  · exact ⟨_, rfl⟩
  · exact ⟨_, rfl⟩

theorem normalize_nil : Markdown.normalize opts.maxBlankLines [] = [] := by
  obtain ⟨rest, hrest⟩ := squeezeFrom_first opts [] []
  have hlines : (lines (unifyBreaks [])).map trimLine = [[]] := rfl
  have hsub := squeezeFrom_sublist opts.maxBlankLines none 0 [[]]
  rw [hrest] at hsub
  have hnil : rest = [] := List.length_eq_zero_iff.mp (Nat.le_zero.mp (Nat.le_of_succ_le_succ
    hsub.length_le))
  rw [normalize_eq_unlines, hlines, hrest, hnil]
  rfl

/-- The document is what squeezing leaves of its lines. -/
theorem convertTree_outcome (h : ∀ n ∈ ns, n.IsProseOrCode)
    (hfits : ∀ n ∈ ns, n.FenceFits opts) :
    (convertTree opts ns).outcome = .ok (unlines (shownLines opts ns)) := by
  refine bind_outcome_eq_ok_iff.mpr ⟨_, bind_outcome_eq_ok_iff.mpr ⟨_, blocks_outcome h hfits, rfl⟩,
    congrArg Except.ok ?_⟩
  rcases documentLines_eq_nil_or_framed opts ns with ⟨hnil, hshown⟩ | hframed
  · rw [hshown, shownLines, hnil]
    exact normalize_nil opts
  · obtain ⟨l, rest, hfirst, _, hl⟩ := hframed.first
    cases hshown : shownBlocks opts ns with
    | nil =>
      rw [documentLines, hshown] at hfirst
      cases hfirst
    | cons n more =>
      obtain ⟨kept, hkept⟩ := squeezeFrom_first opts l.text (rest.map Line.text)
      have htext := map_text_documentLines opts hshown
      rw [normalize_eq_unlines, ← htext, shownLines, hfirst, List.map_cons, hkept,
        List.dropWhile_cons_of_neg (by simpa using hl)]

end Documents

end Hypermark
