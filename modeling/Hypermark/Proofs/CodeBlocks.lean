import Hypermark.Proofs.MarkedDocument
import Hypermark.Proofs.Success

/-!
# Code blocks come through

The normalizer must leave code alone and cut long runs of blank lines everywhere else, but it knows
only the lines of the finished text, where code is what stands between two fences.  It reads the
fences of code blocks rightly; a line of a paragraph that starts like a fence leads it astray.

* `KeepsCode.codeBlock_isInfix`: what it means for one code block to come through.
* `keepsCode_iff`: the document is right exactly if the scanner is right on every long blank run.
* `reads_documentLines`: it is right everywhere if no line of a paragraph opens a fence.
* `code_kept_iff`: both for whole conversions.
-/

namespace Hypermark

open Text Markdown Traced

/-- The text holds the lines of the document in order, all but some blank lines outside of code, and
leaves at most as many of these in a row as the options allow. -/
def KeepsCode (opts : Options) (ns : List Node) (t : Text) : Prop :=
  ∃ ks, Thinned (documentLines opts ns) ks ∧ GapsWithin opts.maxBlankLines ks ∧
    t = unlines (ks.map Line.text)

/-- A preformatted element comes through in one piece: its fences and all lines of its code. -/
theorem KeepsCode.codeBlock_isInfix {opts : Options} {ns : List Node} {t : Text}
    (h : KeepsCode opts ns t) {n : Node} (hn : n ∈ ns) (hrole : n.role = .preformatted) :
    unlines ((n.blockLines opts).map Line.text) <:+: t := by
  obtain ⟨ks, hks, _, rfl⟩ := h
  have hshown : n ∈ shownBlocks opts ns := by
    refine List.mem_filter.mpr ⟨hn, ?_⟩
    rw [Node.blockText, if_pos hrole, fencedBlock, List.append_assoc, List.append_assoc,
      allBlank_openingLine]
    rfl
  have hblock : n.blockLines opts <:+: documentLines opts ns :=
    infix_intercalate (List.mem_map_of_mem hshown)
  have hgap : ∀ l ∈ n.blockLines opts, l.isGap = false := by
    rw [Node.blockLines, if_pos hrole, List.forall_mem_append, List.forall_mem_cons,
      List.forall_mem_map, List.forall_mem_singleton]
    refine ⟨⟨?_, fun _ _ => rfl⟩, ?_⟩
    · rw [Line.isGap, Line.isBlank, allBlank_openingLine, Bool.and_false]
    · rw [Line.isGap, Line.isBlank, allBlank_codeFence, Bool.and_false]
  exact unlines_infix ((hks.isInfix hblock hgap).map Line.text)

/-! ## From texts to lines -/

section Documents

variable (opts : Options) (ns : List Node)

theorem no_feed_documentLines : ∀ t ∈ (documentLines opts ns).map Line.text, '\n' ∉ t := by
  cases hshown : shownBlocks opts ns with
  | nil => simp [documentLines, hshown]
  | cons n more =>
    rw [map_text_documentLines opts hshown, List.forall_mem_map]
    exact fun l hl hfeed => no_feed_of_mem_lines hl (mem_of_mem_trimLine hfeed)

theorem keepsCode_iff : KeepsCode opts ns (unlines (shownLines opts ns)) ↔
    ScanAgrees opts.maxBlankLines none (documentLines opts ns) := by
  rcases documentLines_eq_nil_or_framed opts ns with ⟨hnil, _⟩ | hframed
  · rw [KeepsCode, shownLines, hnil]
    refine iff_of_true ⟨[], .nil, gapsWithin_of_length_le (Nat.zero_le _), rfl⟩ ?_
    exact (scanAgrees_blanks (by simp)).mpr (.inl (Nat.zero_le _))
  · obtain ⟨l, rest, hfirst, _, hl⟩ := hframed.first
    obtain ⟨init, k, hlast, hk⟩ := hframed.last
    have hend : ∀ m, (documentLines opts ns).getLast? = some m → m.isCode = false ∧ m.text ≠ [] := by
      intro m hm
      rw [hlast, List.getLast?_concat] at hm
      obtain rfl := Option.some.inj hm
      exact hk
    -- The text is made of its lines in one way only, since it has one that is not empty.
    obtain ⟨kept, hkept⟩ : ∃ kept, shownLines opts ns = l.text :: kept := by
      obtain ⟨kept, hkept⟩ := squeezeFrom_first opts l.text (rest.map Line.text)
      have hdrop := Text.rdropWhile_append_cons (q := List.isEmpty) (x := l.text) (by simpa using hl) []
        kept
      exact ⟨_, by rw [shownLines, hfirst, List.map_cons, hkept]; exact hdrop⟩
    have hfeed := no_feed_documentLines opts ns
    have hshownfeed : ∀ t ∈ shownLines opts ns, '\n' ∉ t := fun t ht =>
      hfeed t ((squeezeFrom_sublist ..).subset ((List.rdropWhile_prefix _ _).subset ht))
    have hlines : lines (unlines (shownLines opts ns)) = shownLines opts ns :=
      lines_unlines (by rw [hkept]; exact List.cons_ne_nil _ _) hshownfeed
    rw [← shows_squeeze_iff opts.maxBlankLines none hframed.uniform hend]
    constructor
    · rintro ⟨ks, hks, hwithin, htext⟩
      refine ⟨ks, hks, hwithin, ?_⟩
      cases ks with
      | nil =>
        rw [htext, hkept] at hlines
        exact absurd (List.cons.inj hlines).1.symm hl
      | cons m ks =>
        have hksfeed : ∀ t ∈ (m :: ks).map Line.text, '\n' ∉ t := fun t ht =>
          hfeed t ((hks.sublist.map Line.text).subset ht)
        have hkslines := lines_unlines (by simp) hksfeed
        rw [← htext, hlines] at hkslines
        exact hkslines.symm
    · rintro ⟨ks, hks, hwithin, htext⟩
      exact ⟨ks, hks, hwithin, congrArg unlines htext.symm⟩

end Documents

/-! ## What the scanner reads -/

/-- Before every blank line the scanner takes a fence to be open exactly if the line is code. -/
def Tracked : Option Fence → List Line → Prop
  | _, [] => True
  | fence, l :: ls =>
    (l.isBlank = true → l.isCode = fence.isSome) ∧ Tracked (Fence.after fence l.text) ls

theorem tracked_append {fence : Option Fence} {as bs : List Line} : Tracked fence (as ++ bs) ↔
    Tracked fence as ∧ Tracked (Fence.afterAll fence (as.map Line.text)) bs := by
  induction as generalizing fence with
  | nil => exact (and_iff_right trivial).symm
  | cons a as ih =>
    rw [List.cons_append, Tracked, Tracked, ih, and_assoc]
    rfl

theorem scanAgrees_of_tracked {most : Nat} {fence : Option Fence} {ls : List Line}
    (h : Tracked fence ls) : ScanAgrees most fence ls := by
  rintro before run after rfl _ hrun l hl
  obtain ⟨above, below, rfl⟩ := List.append_of_mem hl
  have habove : ∀ a ∈ above, a.isBlank = true := fun a ha => hrun a (List.mem_append_left _ ha)
  rw [tracked_append, tracked_append, tracked_append] at h
  have hline := h.1.2.2.1 (hrun l hl)
  rwa [Fence.afterAll_of_blank habove] at hline

/-- The scanner follows the lines rightly, from one fence that is open to another. -/
structure Reads (fence : Option Fence) (ls : List Line) (fence' : Option Fence) : Prop where
  tracked : Tracked fence ls
  afterwards : Fence.afterAll fence (ls.map Line.text) = fence'

namespace Reads

variable {fence fence' fence'' : Option Fence} {l : Line} {ls ls' : List Line}

theorem nil : Reads fence [] fence := ⟨trivial, rfl⟩

theorem cons (hl : l.isBlank = true → l.isCode = fence.isSome)
    (h : Reads (Fence.after fence l.text) ls fence') : Reads fence (l :: ls) fence' :=
  ⟨⟨hl, h.tracked⟩, h.afterwards⟩

theorem append (h : Reads fence ls fence') (h' : Reads fence' ls' fence'') :
    Reads fence (ls ++ ls') fence'' := by
  refine ⟨tracked_append.mpr ⟨h.tracked, ?_⟩, ?_⟩
  · rw [h.afterwards]
    exact h'.tracked
  · rw [List.map_append, Fence.afterAll_append, h.afterwards, h'.afterwards]

end Reads

theorem reads_prose {ls : List Text} (h : ∀ l ∈ ls, Fence.opening? l = none) :
    Reads none (ls.map fun l => ⟨l, false⟩) none := by
  induction ls with
  | nil => exact .nil
  | cons l ls ih =>
    rw [List.forall_mem_cons] at h
    have hafter : Fence.after none l = none := h.1
    refine .cons (fun _ => rfl) ?_
    rw [hafter]
    exact ih h.2

theorem reads_code {fence : Fence} {ls : List Text}
    (h : ∀ l ∈ ls, fence.closedBy (trimLine l) = false) :
    Reads (some fence) (ls.map fun l => ⟨trimLine l, true⟩) (some fence) := by
  induction ls with
  | nil => exact .nil
  | cons l ls ih =>
    rw [List.forall_mem_cons] at h
    have hafter : Fence.after (some fence) (trimLine l) = some fence := by
      rw [Fence.after, h.1]
      rfl
    refine .cons (fun _ => rfl) ?_
    rw [hafter]
    exact ih h.2

section Blocks

variable {opts : Options} {n : Node}

/-- A code block is read as what it is, and after it no fence is open. -/
theorem reads_codeBlock (hrole : n.role = .preformatted) :
    Reads none (n.blockLines opts) none := by
  have hfenced := n.top.fenced_code opts
  let fence : Fence := ⟨backtick, fenceLength opts.minFence n.top.code⟩
  have hopening : Fence.after none (codeFence opts.minFence n.top.code ++ n.top.codeInfo opts) =
      some fence := hfenced.opens
  have hclosing : Fence.after (some fence) (codeFence opts.minFence n.top.code) = none :=
    if_pos hfenced.closes
  have hcode : ∀ l ∈ lines n.top.code, fence.closedBy (trimLine l) = false := fun l hl =>
    (readsAlike_trimLine.closing fence l).trans (hfenced.stays l hl)
  have hblank : allBlank (codeFence opts.minFence n.top.code) ≠ true :=
    Bool.eq_false_iff.mp (allBlank_codeFence opts n.top.code)
  have hbody : Reads none
      (⟨codeFence opts.minFence n.top.code ++ n.top.codeInfo opts, false⟩ ::
        (lines n.top.code).map fun l => ⟨trimLine l, true⟩) (some fence) := by
    refine .cons (fun _ => rfl) ?_
    rw [hopening]
    exact reads_code hcode
  have hend : Reads (some fence) [⟨codeFence opts.minFence n.top.code, false⟩] none := by
    refine .cons (fun h => absurd h hblank) ?_
    rw [hclosing]
    exact .nil
  rw [Node.blockLines, if_pos hrole]
  exact hbody.append hend

theorem reads_blockLines
    (h : n.role ≠ .preformatted → ∀ l ∈ n.proseLines, Fence.opening? l = none) :
    Reads none (n.blockLines opts) none := by
  by_cases hrole : n.role = .preformatted
  · exact reads_codeBlock hrole
  · rw [Node.blockLines, if_neg hrole]
    exact reads_prose (h hrole)

theorem reads_intercalate {bs : List (List Line)} (h : ∀ b ∈ bs, Reads none b none) :
    Reads none ([⟨[], false⟩].intercalate bs) none := by
  have hempty : Reads none [⟨[], false⟩] none := .cons (fun _ => rfl) .nil
  induction bs with
  | nil => exact .nil
  | cons b bs ih =>
    rw [List.forall_mem_cons] at h
    cases bs with
    | nil =>
      rw [List.intercalate_singleton]
      exact h.1
    | cons c bs =>
      rw [List.intercalate_cons_cons]
      exact (h.1.append hempty).append (ih h.2)

end Blocks

/-- Where no line of a paragraph opens a fence, the scanner is right about every blank line. -/
theorem reads_documentLines (opts : Options) {ns : List Node} (hns : ∀ n ∈ ns, n.IsProseOrCode)
    (h : ∀ n ∈ ns, n.role = .paragraph → ∀ l ∈ n.proseLines, Fence.opening? l = none) :
    Reads none (documentLines opts ns) none := by
  refine reads_intercalate (List.forall_mem_map.mpr fun n hn => ?_)
  have hmem := List.mem_of_mem_filter hn
  exact reads_blockLines fun hrole => h n hmem ((hns n hmem).resolve_right hrole)

/-! ## Conversions -/

/-- The fences of the code in a document that is converted fit. -/
theorem fences_fit {opts : Options} {ns : List Node} (h : (convertTree opts ns).Succeeds) :
    ∀ n ∈ ns, n.FenceFits opts := by
  intro n hn hrole
  have hblock := Node.isBlock_of_role hrole rfl
  have hfits := numbersFit_of_reached h hn hblock (Render.mem_reached_self _ hblock)
  simpa only [Render.NumbersFit, hrole, Node.top] using hfits

/-- A document of paragraphs and code is converted exactly if the fences of its code fit.  Then the
lines of all code blocks come through, and outside of them blank lines are limited, exactly if the
scanner is right on every long run of blank lines; it is if no line of a paragraph opens a fence. -/
theorem code_kept_iff (opts : Options) {ns : List Node} (hns : ∀ n ∈ ns, n.IsProseOrCode) :
    ((∃ t, (convertTree opts ns).outcome = .ok t) ↔ ∀ n ∈ ns, n.FenceFits opts) ∧
    ∀ t, (convertTree opts ns).outcome = .ok t →
      (KeepsCode opts ns t ↔ ScanAgrees opts.maxBlankLines none (documentLines opts ns)) ∧
      ((∀ n ∈ ns, n.role = .paragraph → ∀ l ∈ n.proseLines, Fence.opening? l = none) →
        KeepsCode opts ns t) := by
  refine ⟨⟨fences_fit, fun hfits => ⟨_, convertTree_outcome opts hns hfits⟩⟩, fun t ht => ?_⟩
  have hshown := convertTree_outcome opts hns (fences_fit ⟨t, ht⟩)
  obtain rfl : t = unlines (shownLines opts ns) := Except.ok.inj (ht.symm.trans hshown)
  refine ⟨keepsCode_iff opts ns, fun h => ?_⟩
  exact (keepsCode_iff opts ns).mpr (scanAgrees_of_tracked (reads_documentLines opts hns h).tracked)

/-- Code with three blank lines after a paragraph. -/
theorem blank_lines_of_code_kept :
    let ns : List Node := [.element "p".toList [] [.text "a".toList],
      .element "pre".toList [] [.text "x\n\n\n\ny".toList]]
    ∃ t, (convertTree Options.standard ns).outcome = .ok t ∧ KeepsCode Options.standard ns t := by
  intro ns
  have hns : ∀ n ∈ ns, n.IsProseOrCode :=
    List.forall_mem_cons.mpr ⟨.inl rfl, (List.forall_mem_singleton ..).mpr (.inr rfl)⟩
  have hfits : ∀ n ∈ ns, n.FenceFits Options.standard :=
    List.forall_mem_cons.mpr ⟨nofun, (List.forall_mem_singleton ..).mpr fun _ => by decide⟩
  obtain ⟨hconverted, hkept⟩ := code_kept_iff Options.standard hns
  obtain ⟨t, ht⟩ := hconverted.mpr hfits
  refine ⟨t, ht, (hkept t ht).2 ?_⟩
  rw [List.forall_mem_cons, List.forall_mem_singleton]
  exact ⟨fun _ => by decide, nofun⟩

/-- The same code after a paragraph whose text is a code span with two backticks in it: the line of
the span counts as a fence, the fence of the code block closes it, and a blank line is lost. -/
theorem span_read_as_fence :
    let ns : List Node := [.element "p".toList [] [.element "code".toList [] [.text "a``b".toList]],
      .element "pre".toList [] [.text "x\n\n\n\ny".toList]]
    let t := "```a``b```\n\n```\nx\n\n\ny\n```".toList
    (convertTree Options.standard ns).outcome = .ok t ∧ ¬KeepsCode Options.standard ns t := by
  intro ns t
  have hconverted : (convertTree Options.standard ns).outcome = .ok t := rfl
  have hns : ∀ n ∈ ns, n.IsProseOrCode :=
    List.forall_mem_cons.mpr ⟨.inl rfl, (List.forall_mem_singleton ..).mpr (.inr rfl)⟩
  have hfits : ∀ n ∈ ns, n.FenceFits Options.standard :=
    List.forall_mem_cons.mpr ⟨nofun, (List.forall_mem_singleton ..).mpr fun _ => by decide⟩
  have ht : t = unlines (shownLines Options.standard ns) :=
    Except.ok.inj (hconverted.symm.trans (convertTree_outcome Options.standard hns hfits))
  refine ⟨hconverted, fun hkeeps => ?_⟩
  rw [ht, keepsCode_iff] at hkeeps
  have hblank : (⟨[], true⟩ : Line).isBlank = true := rfl
  have hagree := hkeeps
    [⟨"```a``b```".toList, false⟩, ⟨[], false⟩, ⟨"```".toList, false⟩, ⟨"x".toList, true⟩]
    (List.replicate 3 ⟨[], true⟩) [⟨"y".toList, true⟩, ⟨"```".toList, false⟩] rfl (by decide)
    (fun l hl => List.eq_of_mem_replicate hl ▸ hblank) ⟨[], true⟩ (List.mem_cons_self ..)
  cases hagree

end Hypermark
