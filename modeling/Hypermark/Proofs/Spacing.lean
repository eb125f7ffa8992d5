import Mathlib.Data.List.DropRight
import Hypermark.Markdown.Block
import Hypermark.Markdown.ListItem
import Hypermark.Markdown.Normal

/-!
# White space and layout

Most of what layout does is to put white space in, take some out or exchange it for other white
space.  Whatever measures a text piece by piece, the pieces being parted by white space, does not
notice: so it is with the characters of a kind, and with the words of a text.

* `Gauge`: such a measure, its values put one after the other.
* `Gauge.unlines`, `Gauge.joinBlocks`: parts put together measure what they do one by one.
* `Gauge.headingLine`, `Gauge.addSegments`, `Gauge.normalize`: layout that only moves white space.
-/

namespace Hypermark

open Text Markdown

/-- A measure of texts to which white space adds nothing and across which nothing goes on. -/
structure Gauge {β : Type} (μ : Text → List β) : Prop where
  nil : μ [] = []
  part : ∀ (s : Text) {c : Char} (t : Text), isBlank c = true → μ (s ++ c :: t) = μ s ++ μ t

namespace Gauge

variable {β : Type} {μ : Text → List β} (hμ : Gauge μ)
include hμ

/-! ## White space -/

theorem cons {c : Char} (hc : isBlank c = true) (t : Text) : μ (c :: t) = μ t := by
  have h := hμ.part [] t hc
  rwa [hμ.nil, List.nil_append, List.nil_append] at h

theorem blank_append {w : Text} (hw : ∀ c ∈ w, isBlank c = true) (t : Text) :
    μ (w ++ t) = μ t := by
  induction w with
  | nil => rfl
  | cons c w ih =>
    rw [List.forall_mem_cons] at hw
    rw [List.cons_append, hμ.cons hw.1, ih hw.2]

/-- White space of any length parts what stands on its two sides. -/
theorem gap (s : Text) {w : Text} (hne : w ≠ []) (hw : ∀ c ∈ w, isBlank c = true) (t : Text) :
    μ (s ++ w ++ t) = μ s ++ μ t := by
  obtain ⟨c, w, rfl⟩ := List.exists_cons_of_ne_nil hne
  rw [List.forall_mem_cons] at hw
  rw [List.append_assoc, List.cons_append, hμ.part s _ hw.1, hμ.blank_append hw.2]

theorem of_blank {w : Text} (hw : ∀ c ∈ w, isBlank c = true) : μ w = [] := by
  have h := hμ.blank_append hw []
  rwa [List.append_nil, hμ.nil] at h

theorem of_allBlank {t : Text} (h : allBlank t = true) : μ t = [] :=
  hμ.of_blank (List.all_eq_true.mp h)

theorem of_isEmpty {t : Text} (h : t.isEmpty = true) : μ t = [] := by
  rw [List.isEmpty_iff.mp h, hμ.nil]

theorem append_blank {w : Text} (hw : ∀ c ∈ w, isBlank c = true) (t : Text) :
    μ (t ++ w) = μ t := by
  by_cases hne : w = []
  · rw [hne, List.append_nil]
  · have h := hμ.gap t hne hw []
    rwa [List.append_nil, hμ.nil, List.append_nil] at h

theorem dropWhile {q : Char → Bool} (hq : ∀ c, q c = true → isBlank c = true) (t : Text) :
    μ (t.dropWhile q) = μ t := by
  have hw : ∀ c ∈ t.takeWhile q, isBlank c = true := fun c hc => hq c (List.mem_takeWhile_imp hc)
  have h := hμ.blank_append hw (t.dropWhile q)
  rw [List.takeWhile_append_dropWhile] at h
  exact h.symm

theorem dropEndWhile {q : Char → Bool} (hq : ∀ c, q c = true → isBlank c = true) (t : Text) :
    μ (dropEndWhile q t) = μ t := by
  have hw : ∀ c ∈ t.rtakeWhile q, isBlank c = true := fun c hc => hq c (List.mem_rtakeWhile_imp hc)
  have h := hμ.append_blank hw (t.rdropWhile q)
  rw [List.rdropWhile_append_rtakeWhile] at h
  exact h.symm

theorem trimEnd (t : Text) : μ (trimEnd t) = μ t := hμ.dropEndWhile (fun _ h => h) t

theorem trim (t : Text) : μ (trim t) = μ t :=
  (hμ.trimEnd _).trans (hμ.dropWhile (fun _ h => h) t)

/-- Characters replaced one by one, white space by white space. -/
theorem flatMap {f : Char → Text} (hletter : ∀ c, isBlank c = false → f c = [c])
    (hblank : ∀ c, isBlank c = true → f c ≠ [] ∧ ∀ d ∈ f c, isBlank d = true) (t : Text) :
    μ (t.flatMap f) = μ t := by
  suffices hbehind : ∀ s, μ (s ++ t.flatMap f) = μ (s ++ t) from hbehind []
  induction t with
  | nil => exact fun s => rfl
  | cons c t ih =>
    intro s
    rw [List.flatMap_cons]
    cases hc : isBlank c with
    | true =>
      rw [← List.append_assoc, hμ.gap s (hblank c hc).1 (hblank c hc).2, hμ.part s _ hc]
      exact congrArg _ (ih [])
    | false => rw [hletter c hc, ← List.append_assoc, ih, List.append_assoc]; rfl

/-! ## Lines and blocks -/

theorem intercalate {sep : Text} (hne : sep ≠ []) (hsep : ∀ c ∈ sep, isBlank c = true)
    (parts : List Text) : μ (sep.intercalate parts) = parts.flatMap μ := by
  induction parts with
  | nil => exact hμ.nil
  | cons t parts ih =>
    cases parts with
    | nil => simp [List.intercalate]
    | cons u parts => rw [List.intercalate_cons_cons, hμ.gap t hne hsep, ih]; rfl

theorem unlines (ls : List Text) : μ (unlines ls) = ls.flatMap μ :=
  hμ.intercalate (List.cons_ne_nil _ _) ((List.forall_mem_singleton ..).mpr rfl) ls

theorem joinBlocks (parts : List Text) : μ (joinBlocks parts) = parts.flatMap μ :=
  hμ.intercalate (List.cons_ne_nil _ _)
    (List.forall_mem_cons.mpr ⟨rfl, (List.forall_mem_singleton ..).mpr rfl⟩) parts

theorem lines (t : Text) : (lines t).flatMap μ = μ t := by
  rw [← hμ.unlines, unlines_lines]

/-- Lines changed one by one without a change to the measure. -/
theorem map_lines {f : Text → Text} (hf : ∀ l, μ (f l) = μ l) (t : Text) :
    ((Text.lines t).map f).flatMap μ = μ t := by
  rw [List.flatMap_map, ← hμ.lines t]
  congr 1
  funext l
  exact hf l

theorem unifyBreaks (t : Text) : μ (unifyBreaks t) = μ t := by
  suffices hbehind : ∀ s, μ (s ++ Text.unifyBreaks t) = μ (s ++ t) from hbehind []
  fun_induction Text.unifyBreaks t with
  | case1 => exact fun s => rfl
  | case2 cs ih =>
    intro s
    rw [hμ.part s _ (by decide), hμ.part s _ (by decide), hμ.cons (by decide)]
    exact congrArg _ (ih [])
  | case3 cs h ih =>
    intro s
    rw [hμ.part s _ (by decide), hμ.part s _ (by decide)]
    exact congrArg _ (ih [])
  | case4 c cs h hc ih =>
    intro s
    rw [List.append_cons, ih, ← List.append_cons]

/-! ## Headings -/

/-- White space that a scan has written, and what it may still write before the next letter. -/
private def written : HeadingScan → Text
  | .spaces _ => []
  | _ => [' ']

private def due : HeadingScan → Text
  | .spaces n => List.replicate n ' '
  | _ => [' ']

theorem headingLine (t : Text) : μ (headingLine t) = μ t := by
  have hspace : ∀ c ∈ [' '], isBlank c = true := (List.forall_mem_singleton ..).mpr rfl
  have hone : ∀ s t, μ (s ++ [' '] ++ t) = μ s ++ μ t := fun s t =>
    hμ.gap s (List.cons_ne_nil _ _) hspace t
  have hafter : ∀ scan s {c} t, isBlank c = true → μ (s ++ due scan ++ c :: t) = μ s ++ μ t := by
    intro scan s c t hc
    rw [hμ.part _ t hc, hμ.append_blank fun d hd => ?_]
    cases scan with
    | spaces n => exact (List.eq_of_mem_replicate hd).symm ▸ rfl
    | breaks => exact List.mem_singleton.mp hd ▸ rfl
    | trailing => exact List.mem_singleton.mp hd ▸ rfl
  -- behind what came before: the white space written, and what the scan makes of the rest
  suffices hscan : ∀ scan s, μ (s ++ written scan ++ headingLineFrom scan t) =
      μ (s ++ due scan ++ t) from hscan (.spaces 0) []
  intro scan
  fun_induction headingLineFrom scan t with
  | case1 n =>
    intro s
    rw [written, due, List.append_nil, List.append_nil]
  | case2 scan hscan =>
    intro s
    cases scan with
    | spaces n => exact absurd rfl (hscan n)
    | breaks => rfl
    | trailing => rfl
  | case3 cs n ih =>
    intro s
    refine (ih s).trans ?_
    rw [due, due, List.replicate_succ', List.append_assoc, List.append_assoc, List.append_assoc]
    rfl
  | case4 scan cs hscan ih =>
    intro s
    rw [hafter scan s cs rfl, ← hone]
    cases scan with
    | spaces n => exact absurd rfl (hscan n)
    | breaks => exact ih s
    | trailing => exact ih s
  | case5 cs h ih =>
    intro s
    rw [hafter .breaks s cs rfl, ← hone]
    exact ih s
  | case6 scan cs h h' ih =>
    intro s
    have hwritten : μ (s ++ written scan) = μ s := by
      cases scan with
      | spaces n => rw [written, List.append_nil]
      | breaks => exact hμ.append_blank hspace s
      | trailing => exact hμ.append_blank hspace s
    rw [hafter scan s cs rfl, List.append_cons, ← hwritten, ← hone]
    exact ih (s ++ written scan)
  | case7 c cs h h' n ih =>
    intro s
    have hnext := ih (s ++ List.replicate n ' ' ++ [c])
    simp only [written, due, List.replicate_zero, List.append_nil] at hnext
    rw [written, due, List.append_nil, ← List.append_assoc, List.append_cons, hnext,
      ← List.append_cons]
  | case8 scan c cs h h' h'' ih =>
    intro s
    have hnext := ih (s ++ [' '] ++ [c])
    simp only [written, due, List.replicate_zero, List.append_nil] at hnext
    have hletter : μ (s ++ [' '] ++ c :: headingLineFrom (.spaces 0) cs) =
        μ (s ++ [' '] ++ c :: cs) := by
      rw [List.append_cons, hnext, ← List.append_cons]
    cases scan with
    | spaces n => exact absurd rfl (h'' n)
    | breaks => exact hletter
    | trailing => exact hletter

/-! ## List items -/

theorem indentLine (depth : Nat) (line : Text) : μ (indentLine depth line) = μ line := by
  have hindent : ∀ c ∈ indent (depth + 1), isBlank c = true := fun c hc =>
    (List.eq_of_mem_replicate hc).symm ▸ rfl
  unfold Markdown.indentLine
  by_cases hb : allBlank line = true
  · rw [if_pos hb, hμ.nil, hμ.of_allBlank hb]
  · rw [if_neg hb, hμ.blank_append hindent]

/-- The lines of an item below the marker start under its text. -/
theorem hangingText (n : Nat) (t : Text) : μ (t.flatMap fun c =>
    if c = '\n' then '\n' :: List.replicate n ' ' else [c]) = μ t := by
  refine hμ.flatMap (fun c hc => if_neg ?_) (fun c hc => ?_) t
  · rintro rfl
    cases hc
  · split
    · refine ⟨List.cons_ne_nil _ _, List.forall_mem_cons.mpr ⟨rfl, fun d hd => ?_⟩⟩
      exact (List.eq_of_mem_replicate hd).symm ▸ rfl
    · exact ⟨List.cons_ne_nil _ _, (List.forall_mem_singleton ..).mpr hc⟩

theorem segmentLines (depth : Nat) (kind : SegmentKind) (t : Text) :
    (segmentLines depth kind t).flatMap μ = μ t := by
  have hblock : (if allBlank t then [] else (Text.lines t).map (Markdown.indentLine depth)).flatMap
      μ = μ t := by
    by_cases hb : allBlank t = true
    · rw [if_pos hb, hμ.of_allBlank hb, List.flatMap_nil]
    · rw [if_neg hb, hμ.map_lines (hμ.indentLine depth)]
  cases kind with
  | inline => exact hblock
  | block => exact hblock
  | nestedList =>
    show (if t.isEmpty then [] else Text.lines t).flatMap μ = μ t
    by_cases he : t.isEmpty = true
    · rw [if_pos he, hμ.of_isEmpty he, List.flatMap_nil]
    · rw [if_neg he, hμ.lines]

theorem addSegments (depth : Nat) (above : List Text) (previous : Option SegmentKind)
    (below : List (SegmentKind × Text)) :
    (addSegments depth above previous below).flatMap μ =
      above.flatMap μ ++ below.flatMap fun s => μ s.2 := by
  induction below generalizing above previous with
  | nil => rw [Markdown.addSegments, List.flatMap_nil, List.append_nil]
  | cons s below ih =>
    obtain ⟨kind, t⟩ := s
    have hlines := hμ.segmentLines depth kind t
    rw [Markdown.addSegments, List.flatMap_cons, ← hlines]
    cases hl : Markdown.segmentLines depth kind t with
    | nil => rw [ih, List.flatMap_nil, List.nil_append]
    | cons l ls =>
      rw [ih, List.flatMap_append, List.flatMap_append, ← List.append_assoc]
      congr 2
      split
      · rw [List.flatMap_singleton, hμ.nil, List.append_nil]
      · rw [List.flatMap_nil, List.append_nil]

/-- An item is its marker line and the segments below. -/
theorem itemText (depth : Nat) (marker text : Text) (below : List (SegmentKind × Text)) :
    μ (Markdown.itemText depth marker text below) =
      μ (markerLine marker text) ++ below.flatMap fun s => μ s.2 := by
  rw [Markdown.itemText, hμ.unlines, hμ.addSegments, List.flatMap_singleton]

/-! ## Documents -/

theorem squeezeFrom (most : Int) (fence : Option Fence) (blanks : Nat) (ls : List Text) :
    (squeezeFrom most fence blanks ls).flatMap μ = ls.flatMap μ := by
  induction ls generalizing fence blanks with
  | nil => rfl
  | cons line rest ih =>
    simp only [Markdown.squeezeFrom]
    split
    · rw [List.flatMap_cons, List.flatMap_cons, ih]
    split
    · rw [List.flatMap_cons, List.flatMap_cons, ih]
    · rename_i hb
      split
      · rw [List.flatMap_cons, List.flatMap_cons, ih]
      · rw [ih, List.flatMap_cons, hμ.of_allBlank (by simpa using hb), List.nil_append]

theorem trimLine (line : Text) : μ (trimLine line) = μ line := by
  refine hμ.dropEndWhile (fun c hc => ?_) line
  rw [Bool.or_eq_true, beq_iff_eq, beq_iff_eq] at hc
  rcases hc with rfl | rfl
  · rfl
  · rfl

theorem normalize (most : Int) (t : Text) : μ (Markdown.normalize most t) = μ t := by
  have hfeed : ∀ c, isLineFeed c = true → isBlank c = true := by
    intro c hc
    rw [isLineFeed, beq_iff_eq] at hc
    rw [hc]
    rfl
  rw [Markdown.normalize, hμ.dropEndWhile hfeed, hμ.dropWhile hfeed, squeeze, hμ.unlines,
    hμ.squeezeFrom, hμ.lines, hμ.unlines, hμ.map_lines hμ.trimLine, hμ.unifyBreaks]

end Gauge

end Hypermark
