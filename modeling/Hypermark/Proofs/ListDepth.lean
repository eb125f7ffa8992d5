import Hypermark.Proofs.ItemNumbers

/-!
# Lists at a depth

A list at a depth is the list at the margin, moved to the right.  `setOff` moves a line and
`shifted` a text; a line stays empty if it is.  The four places that indent, the marker, the lines
under the text on the marker line, the lines of blocks and the nested lists, all move by the same
amount, and the rule for blank lines looks at nothing but whether the line above is empty, which
moving does not change.

The induction is on the tree, one level of items at a time: a nested list is not touched by the item
it stands in, so its lines move because it is rendered at a depth of its own.

* `markerLine_shifted`, `segmentLines_shifted`: the four places.
* `renderItem_shifted`: an item, from its segments.
* `segments_shift`, `items_shift`: the segments of an item and the items of a list.
* `list_shifted`: lists of any content at any depth.
-/

namespace Hypermark

open Text Markdown Traced

namespace Markdown

/-! ## Lines and texts moved to the right -/

/-- A line moved to the right by some levels of lists, unless it is empty. -/
def setOff (levels : Nat) (l : Text) : Text := if l.isEmpty then [] else indent levels ++ l

/-- A text with all of its lines moved. -/
def shifted (levels : Nat) (t : Text) : Text := unlines ((lines t).map (setOff levels))

/-- The number of spaces a line starts with. -/
def leadingSpaces (l : Text) : Nat := (l.takeWhile (· == ' ')).length

section Shifted

variable {levels depth : Nat}

theorem indent_add (levels depth : Nat) : indent (levels + depth) = indent levels ++ indent depth := by
  unfold indent
  rw [List.replicate_append_replicate, Nat.mul_add]

theorem setOff_nil : setOff levels [] = [] := rfl

theorem setOff_of_ne_nil {l : Text} (h : l ≠ []) : setOff levels l = indent levels ++ l :=
  if_neg (by rwa [List.isEmpty_iff])

theorem isEmpty_setOff (levels : Nat) (l : Text) : (setOff levels l).isEmpty = l.isEmpty := by
  cases l with
  | nil => rfl
  | cons c l => simp [setOff_of_ne_nil]

theorem trimStart_setOff (levels : Nat) (l : Text) : trimStart (setOff levels l) = trimStart l := by
  by_cases hl : l = []
  · rw [hl, setOff_nil]
  · rw [setOff_of_ne_nil hl, trimStart_indent_append]

theorem leadingSpaces_setOff (levels : Nat) (l : Text) :
    leadingSpaces (setOff levels l) = (if l.isEmpty then 0 else 2 * levels) + leadingSpaces l := by
  cases l with
  | nil => rfl
  | cons c l =>
    rw [setOff_of_ne_nil (List.cons_ne_nil c l), leadingSpaces, indent,
      List.takeWhile_append_of_pos (by simp), List.length_append, List.length_replicate]
    rfl

theorem no_feed_setOff {l : Text} (h : '\n' ∉ l) : '\n' ∉ setOff levels l := by
  unfold setOff
  split
  · exact List.not_mem_nil
  · rw [List.mem_append, not_or]
    exact ⟨no_feed_indent levels, h⟩

theorem lines_shifted (levels : Nat) (t : Text) :
    lines (shifted levels t) = (lines t).map (setOff levels) := by
  apply lines_unlines
  · rw [ne_eq, List.map_eq_nil_iff]
    exact List.splitOn_ne_nil '\n' t
  · intro l hl
    obtain ⟨k, hk, rfl⟩ := List.mem_map.mp hl
    exact no_feed_setOff (no_feed_of_mem_lines hk)

theorem shifted_of_no_feed {t : Text} (h : '\n' ∉ t) : shifted levels t = setOff levels t := by
  rw [shifted, lines_of_no_feed h, List.map_singleton, unlines, List.intercalate_singleton]

theorem shifted_append_feed (s t : Text) :
    shifted levels (s ++ '\n' :: t) = shifted levels s ++ '\n' :: shifted levels t := by
  rw [← unlines_lines (shifted levels s ++ '\n' :: shifted levels t), lines_append_feed,
    lines_shifted, lines_shifted, ← List.map_append, ← lines_append_feed]
  rfl

theorem shifted_unlines (levels : Nat) (ts : List Text) :
    shifted levels (unlines ts) = unlines (ts.map (shifted levels)) := by
  induction ts with
  | nil => rfl
  | cons t ts ih =>
    cases ts with
    | nil => simp only [List.map_singleton, unlines, List.intercalate_singleton]
    | cons t' ts =>
      rw [unlines_cons_cons, shifted_append_feed, ih]
      rfl

theorem isEmpty_shifted (levels : Nat) (t : Text) : (shifted levels t).isEmpty = t.isEmpty := by
  cases t with
  | nil => rfl
  | cons c t =>
    -- the first character is a line feed, or it stands in a line that is not empty
    by_cases hc : c = '\n'
    · rw [hc, ← List.nil_append ('\n' :: t), shifted_append_feed]
      rfl
    · obtain ⟨l, rest, hlines, hl⟩ := exists_first_line hc t
      have hne : setOff levels l ≠ [] := by
        rw [setOff_of_ne_nil (List.ne_nil_of_mem hl)]
        exact List.append_ne_nil_of_right_ne_nil _ (List.ne_nil_of_mem hl)
      rw [shifted, hlines, List.map_cons]
      obtain ⟨d, l', hd⟩ := List.exists_cons_of_ne_nil hne
      rw [hd]
      cases rest.map (setOff levels) with
      | nil => rfl
      | cons k ks => rw [unlines_cons_cons]; rfl

end Shifted

/-! ## The marker line -/

/-- Further lines of a text, under its first line. -/
def underMarker (width : Nat) (text : Text) : Text :=
  text.flatMap fun c => if c = '\n' then '\n' :: List.replicate width ' ' else [c]

theorem shifted_append_underMarker {start : Text} (levels : Nat) {width : Nat} (hwidth : 0 < width)
    (hne : start ≠ []) (hfeed : '\n' ∉ start) (text : Text) :
    shifted levels (start ++ underMarker width text) =
      indent levels ++ start ++ underMarker (2 * levels + width) text := by
  induction text generalizing start with
  | nil =>
    simp only [underMarker, List.flatMap_nil, List.append_nil]
    rw [shifted_of_no_feed hfeed, setOff_of_ne_nil hne]
  | cons c text ih =>
    by_cases hc : c = '\n'
    · -- the next line starts with spaces instead of the marker
      have hspaces : List.replicate width ' ' ≠ [] := by simp; omega
      have hplain : '\n' ∉ List.replicate width ' ' := by simp
      have hindent : List.replicate (2 * levels + width) ' ' =
          indent levels ++ List.replicate width ' ' := by
        rw [indent, List.replicate_append_replicate]
      have hunder : ∀ w, underMarker w ('\n' :: text) =
          '\n' :: (List.replicate w ' ' ++ underMarker w text) := fun w => rfl
      rw [hc, hunder, hunder, shifted_append_feed, ih hspaces hplain, shifted_of_no_feed hfeed,
        setOff_of_ne_nil hne, hindent]
    · have hunder : ∀ w, underMarker w (c :: text) = c :: underMarker w text := by
        intro w
        rw [underMarker, List.flatMap_cons, if_neg hc]
        rfl
      have hnext := @ih (start ++ [c]) (by simp) (by simp [hfeed, Ne.symm hc])
      simpa [hunder] using hnext

/-- The marker line moves with its marker: the lines under it are set under the text. -/
theorem markerLine_shifted {s : Text} {c : Char} (levels : Nat) (hc : isBlank c = false)
    (hfeed : '\n' ∉ s ++ [c]) (text : Text) :
    markerLine (indent levels ++ (s ++ [c] ++ [' '])) text =
      shifted levels (markerLine (s ++ [c] ++ [' ']) text) := by
  unfold markerLine
  split
  · rw [trimEnd_append_space hc, shifted_of_no_feed hfeed, setOff_of_ne_nil (by simp),
      ← List.append_assoc, ← List.append_assoc, trimEnd_append_space hc, List.append_assoc]
  · have hlength : (indent levels ++ (s ++ [c] ++ [' '])).length =
        2 * levels + (s ++ [c] ++ [' ']).length := by
      rw [List.length_append, indent, List.length_replicate]
    rw [hlength]
    refine (shifted_append_underMarker levels (by simp) (by simp) ?_ text).symm
    rw [List.mem_append, not_or]
    exact ⟨hfeed, by decide⟩

/-! ## Below the marker line -/

/-- What becomes of the text of a segment when its item is moved: a nested list is at a depth of its
own, all else is indented by the item. -/
def moved (levels : Nat) (kind : SegmentKind) (t : Text) : Text :=
  if kind = .nestedList then shifted levels t else t

section Moved

variable {levels depth : Nat} {segments segments' : List Segment}

theorem indentLine_add (levels depth : Nat) (l : Text) :
    indentLine (levels + depth) l = setOff levels (indentLine depth l) := by
  unfold indentLine
  split
  · rfl
  · rename_i hblank
    have hne : indent (depth + 1) ++ l ≠ [] := by
      refine List.append_ne_nil_of_right_ne_nil _ ?_
      rintro rfl
      exact hblank rfl
    rw [setOff_of_ne_nil hne, Nat.add_assoc, indent_add, List.append_assoc]

theorem segmentLines_shifted (levels depth : Nat) (kind : SegmentKind) (t : Text) :
    segmentLines (levels + depth) kind (moved levels kind t) =
      (segmentLines depth kind t).map (setOff levels) := by
  have hindented : (if allBlank t then [] else (lines t).map (indentLine (levels + depth))) =
      (if allBlank t then [] else (lines t).map (indentLine depth)).map (setOff levels) := by
    split
    · rfl
    · rw [List.map_map]
      exact List.map_congr_left fun l _ => indentLine_add levels depth l
  cases kind with
  | inline => exact hindented
  | block => exact hindented
  | nestedList =>
    show (if (shifted levels t).isEmpty then [] else lines (shifted levels t)) = _
    rw [isEmpty_shifted, lines_shifted, segmentLines]
    split
    · rfl
    · rfl

/-- The lines below move with those above: the rule for blank lines sees no difference.  The marker
line is one element of the lines above and may be several lines, so these move as texts. -/
theorem addSegments_shifted (levels depth : Nat) (above : List Text)
    (previous : Option SegmentKind) (below : List (SegmentKind × Text)) :
    addSegments (levels + depth) (above.map (shifted levels)) previous
        (below.map fun s => (s.1, moved levels s.1 s.2)) =
      (addSegments depth above previous below).map (shifted levels) := by
  induction below generalizing above previous with
  | nil => rfl
  | cons s below ih =>
    obtain ⟨kind, t⟩ := s
    have hsegment : segmentLines (levels + depth) kind (moved levels kind t) =
        (segmentLines depth kind t).map (shifted levels) := by
      rw [segmentLines_shifted]
      exact List.map_congr_left fun l hl =>
        (shifted_of_no_feed (no_feed_of_mem_segmentLines hl)).symm
    have hgap : (above.map (shifted levels)).getLast?.any (!·.isEmpty) =
        above.getLast?.any (!·.isEmpty) := by
      rw [List.getLast?_map]
      cases above.getLast? with
      | none => rfl
      | some l => exact congrArg (!·) (isEmpty_shifted levels l)
    rw [List.map_cons, addSegments, addSegments, hsegment]
    cases segmentLines depth kind t with
    | nil => exact ih above previous
    | cons l ls =>
      have hblank : ∀ gap : Bool, (if gap then [[]] else []).map (shifted levels) =
          if gap then [[]] else [] := by
        intro gap
        cases gap with
        | false => rfl
        | true => rfl
      simp only [List.map_cons, hgap]
      rw [← ih, List.map_append, List.map_append, hblank, List.map_cons]

end Moved

/-! ## Items -/

/-- The segments of an item that is moved. -/
def Moves (levels : Nat) (s s' : Segment) : Prop :=
  s'.kind = s.kind ∧ s'.rendering.outcome = s.rendering.outcome.map (moved levels s.kind)

section Items

variable {levels depth : Nat} {segments segments' : List Segment}

theorem Moves.outcome_eq {s s' : Segment} (h : Moves levels s s') (hkind : s.kind ≠ .nestedList) :
    s'.rendering.outcome = s.rendering.outcome := by
  have hsame : moved levels s.kind = id := funext fun t => if_neg hkind
  rw [h.2, hsame, Except.map_id]
  rfl

/-- The marker line takes the same text; no nested list goes on it. -/
theorem leading_moves {α β : Type} {h : α → β} {F : Leading → Traced α} {G : Leading → Traced β}
    (hsegments : List.Forall₂ (Moves levels) segments segments')
    (hFG : ∀ text held rest rest', List.Forall₂ (Moves levels) rest rest' →
      (G ⟨text, held, rest'⟩).outcome = (F ⟨text, held, rest⟩).outcome.map h) :
    ((leading segments').bind G).outcome = ((leading segments).bind F).outcome.map h := by
  induction hsegments with
  | nil => exact hFG _ _ _ _ .nil
  | @cons s s' rest rest' hs hrest ih =>
    rw [leading, leading, hs.1]
    cases hkind : s.kind with
    | nestedList => exact hFG _ _ _ _ (.cons hs hrest)
    | inline =>
      dsimp only
      rw [Traced.bind_assoc, Traced.bind_assoc]
      refine bind_outcome_map_right (hs.outcome_eq (by simp [hkind])) fun t => ?_
      split
      · exact ih
      · exact hFG _ _ _ _ hrest
    | block =>
      dsimp only
      rw [Traced.bind_assoc, Traced.bind_assoc]
      refine bind_outcome_map_right (hs.outcome_eq (by simp [hkind])) fun t => ?_
      split
      · exact hFG _ _ _ _ hrest
      · exact hFG _ _ _ _ hrest

theorem addRendered_shifted (depth : Nat) (hsegments : List.Forall₂ (Moves levels) segments segments')
    (above : List Text) (previous : Option SegmentKind) (held : List (SegmentKind × Text)) :
    (addRendered (levels + depth) (above.map (shifted levels)) previous
        (held.map fun s => (s.1, moved levels s.1 s.2)) segments').outcome =
      (addRendered depth above previous held segments).outcome.map
        (List.map (shifted levels)) := by
  induction hsegments generalizing held with
  | nil =>
    have hadd := addSegments_shifted levels depth above previous held
    show Except.ok (addSegments _ _ _ (held.map _ ++ [])) =
      Except.ok ((addSegments _ _ _ (held ++ [])).map (shifted levels))
    rw [List.append_nil, List.append_nil, hadd]
  | cons hs _ ih =>
    rw [addRendered_cons, addRendered_cons, hs.1]
    refine bind_outcome_map hs.2 fun t => ?_
    rw [← ih, List.map_append]
    rfl

/-- An item whose marker and nested lists are moved is the item moved. -/
theorem renderItem_shifted {s : Text} {c : Char} (hc : isBlank c = false) (hfeed : '\n' ∉ s ++ [c])
    (hsegments : List.Forall₂ (Moves levels) segments segments') :
    (renderItem (levels + depth) (indent levels ++ (s ++ [c] ++ [' '])) segments').outcome =
      (renderItem depth (s ++ [c] ++ [' ']) segments).outcome.map (shifted levels) := by
  rw [renderItem_eq_addRendered, renderItem_eq_addRendered]
  refine leading_moves hsegments fun text held rest rest' hrest => ?_
  have hadd := addRendered_shifted depth hrest
    [markerLine (s ++ [c] ++ [' ']) text] none (held.toList.map (SegmentKind.block, ·))
  -- what is held back is a block, and stays as it is
  rw [List.map_map] at hadd
  rw [markerLine_shifted levels hc hfeed]
  refine bind_outcome_map hadd fun ls => ?_
  exact congrArg Except.ok (shifted_unlines levels ls).symm

end Items

end Markdown

namespace Render

variable {opts : Options}

/-! ## Lists -/

/-- The children of the node move as the items of a list, at every depth and with every number. -/
def ShiftsItems (opts : Options) (levels : Nat) (n : Node) : Prop :=
  ∀ scope depth due, (items opts scope (levels + depth) due n.children).outcome =
    (items opts scope depth due n.children).outcome.map (List.map (shifted levels))

section Shift

variable {levels : Nat}

theorem list_shift {n : Node} (h : ShiftsItems opts levels n) (scope : Scope) (depth : Nat) :
    (list opts scope (levels + depth) n).outcome =
      (list opts scope depth n).outcome.map (shifted levels) := by
  cases n with
  | element name attrs cs =>
    refine bind_outcome_map_right rfl fun first => ?_
    refine bind_outcome_map (h (name :: scope) depth first) fun ts => ?_
    exact congrArg Except.ok (shifted_unlines levels ts).symm
  | text t => rfl
  | comment t => rfl
  | directive k t => rfl

theorem moves_self {s : Segment} (h : s.kind ≠ .nestedList) : Moves levels s s := by
  have hsame : moved levels s.kind = id := funext fun t => if_neg h
  refine ⟨rfl, ?_⟩
  rw [hsame, Except.map_id]
  rfl

theorem runSegment_moves (scope : Scope) (nodes : List Node) :
    List.Forall₂ (Moves levels) (runSegment scope nodes) (runSegment scope nodes) :=
  List.forall₂_same.mpr fun _ hs => moves_self (kind_of_mem_runSegment hs)

theorem segments_shift {ns : List Node} (h : ∀ n ∈ ns, ShiftsItems opts levels n) (scope : Scope)
    (depth : Nat) (pending : List Node) :
    List.Forall₂ (Moves levels) (segments opts scope depth pending ns)
      (segments opts scope (levels + depth) pending ns) := by
  induction ns generalizing pending with
  | nil =>
    rw [segments, segments]
    exact runSegment_moves scope pending
  | cons n ns ih =>
    rw [List.forall_mem_cons] at h
    by_cases hb : n.isBlock = true
    · by_cases hl : ∃ ordered, n.role = .list ordered
      · obtain ⟨ordered, hrole⟩ := hl
        cases n with
        | element name attrs cs =>
          rw [segments_list hrole, segments_list hrole, ← ordered_eq hrole]
          refine List.rel_append (runSegment_moves scope pending) (.cons ⟨rfl, ?_⟩ (ih h.2 []))
          exact list_shift h.1 scope (depth + 1)
        | text t => cases hrole
        | comment t => cases hrole
        | directive k t => cases hrole
      · rw [segments_block hb (not_exists.mp hl), segments_block hb (not_exists.mp hl)]
        exact List.rel_append (runSegment_moves scope pending)
          (.cons (moves_self (by nofun)) (ih h.2 []))
    · rw [Bool.not_eq_true] at hb
      rw [segments_inline hb, segments_inline hb]
      exact ih h.2 _

theorem itemMarker_add (levels depth : Nat) (number : Option Int) :
    itemMarker (levels + depth) number =
      (itemMarker depth number).map (indent levels ++ ·) := by
  cases number with
  | none => exact congrArg Except.ok (by rw [bulletMarker, indent_add, List.append_assoc]; rfl)
  | some k =>
    unfold itemMarker
    dsimp only
    cases Text.writeInteger k with
    | error size => rfl
    | ok number =>
      refine congrArg Except.ok ?_
      simp only [numberMarker, indent_add, List.append_assoc]

theorem items_shift {ns : List Node} (h : ∀ n ∈ ns, ∀ c ∈ n.children, ShiftsItems opts levels c)
    (scope : Scope) (depth : Nat) (due : Option Int) :
    (items opts scope (levels + depth) due ns).outcome =
      (items opts scope depth due ns).outcome.map (List.map (shifted levels)) := by
  induction ns generalizing due with
  | nil => rfl
  | cons n ns ih =>
    rw [List.forall_mem_cons] at h
    have hrest := ih h.2
    cases n with
    | element name attrs cs =>
      simp only [items]
      split
      · refine bind_outcome_map_right rfl fun number => ?_
        rw [itemMarker_add]
        cases hmarker : itemMarker depth number with
        | error size => rfl
        | ok marker =>
          obtain ⟨s, c, hlabel, hc⟩ := exists_label_eq depth number
          have hfeed := no_feed_label depth number
          obtain rfl := itemMarker_eq hmarker
          rw [hlabel] at hfeed ⊢
          have hsegments := segments_shift h.1 (name :: scope) depth []
          have hwritten : ∀ (m : Text) (f : Text → Traced (List Text)),
              ((ofSized (.ok m)).bind f).outcome = (f m).outcome := fun _ _ => rfl
          rw [Except.map, hwritten, hwritten]
          refine bind_outcome_map (renderItem_shifted hc hfeed hsegments) fun item => ?_
          exact bind_outcome_map (hrest _) fun rest => rfl
      · exact hrest due
    | text t =>
      simp only [items]
      exact hrest due
    | comment t =>
      simp only [items]
      exact hrest due
    | directive k t =>
      simp only [items]
      exact hrest due

theorem shiftsItems (opts : Options) (levels : Nat) (n : Node) :
    n.Throughout (ShiftsItems opts levels) :=
  Node.throughout (fun _ h scope depth due =>
    items_shift (fun _ hc _ hg => ((h _ hc).child hg).here) scope depth due) n

end Shift

/-- A list at a depth comes to what it comes to at the margin, with its lines moved: two spaces for
each level go before every line that is not empty, and nothing else changes.  It has as many lines,
the same ones are empty, and each has the same text after its white space, so its number too. -/
theorem list_shifted (opts : Options) (scope : Scope) (depth : Nat) (n : Node) :
    (list opts scope depth n).outcome = (list opts scope 0 n).outcome.map (shifted depth) ∧
      (∀ t, lines (shifted depth t) = (lines t).map (setOff depth)) ∧
      ∀ l, setOff depth l = (if l.isEmpty then [] else List.replicate (2 * depth) ' ' ++ l) ∧
        (setOff depth l).isEmpty = l.isEmpty ∧
        trimStart (setOff depth l) = trimStart l ∧
        leadingSpaces (setOff depth l) = (if l.isEmpty then 0 else 2 * depth) + leadingSpaces l := by
  refine ⟨list_shift (shiftsItems opts depth n).here scope 0, lines_shifted depth, fun l => ?_⟩
  exact ⟨rfl, isEmpty_setOff depth l, trimStart_setOff depth l, leadingSpaces_setOff depth l⟩

example :
    (list Options.standard [] 1 (.element "ul".toList []
      [.element "li".toList [] [.text "a".toList, .element "br".toList [] [], .text "b".toList,
        .element "ol".toList [] [.element "li".toList [] [.text "c".toList]],
        .element "p".toList [] [.text "d".toList]]])).outcome =
      .ok "  - a\n    b\n    1. c\n\n    d".toList := rfl

end Render

end Hypermark
