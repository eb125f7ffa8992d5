import Hypermark.Proofs.DocumentLines
import Hypermark.Proofs.Item
import Hypermark.Proofs.OpenLists
import Hypermark.Proofs.Success

/-!
# The numbers of items

The items of an `ol` are numbered from its start, an item with a value of its own taking that and
those after it going on from there; the items of a `ul` are marked with dashes.  What the items
contain makes no difference: the lists in it have numbers of their own.

* `starts_renderItem`: an item starts with its marker whatever is in it.
* `items_numbered`: the number of each item, and so the first line of its text.
* `lists_numbered_and_closed`: with a stack of open lists in place of a number that is handed on the
  items have the same numbers, and the stack is as before when a node is done.
-/

namespace Hypermark

/-! ## First lines -/

namespace Text

/-- The first line of a text starts with `s`. -/
def FirstLineStarts (s t : Text) : Prop := ∃ line below, lines t = line :: below ∧ s <+: line

theorem firstLineStarts_append {s : Text} (hs : '\n' ∉ s) (t : Text) :
    FirstLineStarts s (s ++ t) := by
  induction s with
  | nil =>
    obtain ⟨line, below, h⟩ := List.exists_cons_of_ne_nil (List.splitOn_ne_nil '\n' t)
    exact ⟨line, below, h, List.nil_prefix⟩
  | cons c s ih =>
    rw [List.mem_cons, not_or] at hs
    obtain ⟨line, below, hlines, hstart⟩ := ih hs.2
    refine ⟨c :: line, below, ?_, List.cons_prefix_cons.mpr ⟨rfl, hstart⟩⟩
    rw [List.cons_append, lines_cons (Ne.symm hs.1), hlines]
    rfl

theorem firstLineStarts_of_isPrefix {s t : Text} (hs : '\n' ∉ s) (h : s <+: t) :
    FirstLineStarts s t := by
  obtain ⟨rest, rfl⟩ := h
  exact firstLineStarts_append hs rest

end Text

/-! ## Marker lines -/

namespace Markdown

open Text

theorem no_feed_indent (depth : Nat) : '\n' ∉ indent depth := by simp [indent]

theorem not_mem_quoteLine {c : Char} (hmark : c ≠ '>') (hspace : c ≠ ' ') {l : Text} (h : c ∉ l) :
    c ∉ quoteLine l := by
  rw [quoteLine]
  split
  · exact List.not_mem_cons_of_ne_of_not_mem hmark List.not_mem_nil
  · exact List.not_mem_cons_of_ne_of_not_mem hmark
      (List.not_mem_cons_of_ne_of_not_mem hspace h)

theorem not_mem_indentLine {c : Char} (hspace : c ≠ ' ') (depth : Nat) {l : Text} (h : c ∉ l) :
    c ∉ indentLine depth l := by
  rw [indentLine]
  split
  · exact List.not_mem_nil
  · rw [List.mem_append, not_or]
    exact ⟨fun hc => hspace (List.eq_of_mem_replicate hc), h⟩

theorem no_feed_of_mem_segmentLines {depth : Nat} {kind : SegmentKind} {t l : Text}
    (h : l ∈ segmentLines depth kind t) : '\n' ∉ l := by
  have hindented : l ∈ (if allBlank t then [] else (lines t).map (indentLine depth)) →
      '\n' ∉ l := by
    intro h
    split at h
    · cases h
    · obtain ⟨k, hk, rfl⟩ := List.mem_map.mp h
      exact not_mem_indentLine (by decide) depth (no_feed_of_mem_lines hk)
  cases kind with
  | inline => exact hindented h
  | block => exact hindented h
  | nestedList =>
    rw [segmentLines] at h
    split at h
    · cases h
    · exact no_feed_of_mem_lines h

theorem trimStart_indent_append (depth : Nat) (l : Text) :
    trimStart (indent depth ++ l) = trimStart l := by
  refine List.dropWhile_append_of_pos fun c hc => ?_
  rw [List.eq_of_mem_replicate hc]
  rfl

theorem trimEnd_append_space {c : Char} (hc : isBlank c = false) (s : Text) :
    trimEnd (s ++ [c] ++ [' ']) = s ++ [c] := by
  have hblank : isBlank ' ' = true := by decide
  rw [List.append_assoc]
  show (s ++ c :: [' ']).rdropWhile isBlank = _
  rw [rdropWhile_append_cons hc, List.rdropWhile_singleton, if_pos hblank]

theorem isPrefix_markerLine {s : Text} {c : Char} (hc : isBlank c = false) (text : Text) :
    s ++ [c] <+: markerLine (s ++ [c] ++ [' ']) text := by
  unfold markerLine
  split
  · exact ⟨[], by rw [List.append_nil, trimEnd_append_space hc]⟩
  · rw [List.append_assoc (s ++ [c])]
    exact List.prefix_append _ _

theorem exists_addSegments_eq (depth : Nat) (line : Text) (above : List Text)
    (previous : Option SegmentKind) (below : List (SegmentKind × Text)) :
    ∃ rest, addSegments depth (line :: above) previous below = line :: rest := by
  induction below generalizing above previous with
  | nil => exact ⟨above, rfl⟩
  | cons s below ih =>
    obtain ⟨kind, t⟩ := s
    rw [addSegments]
    split
    · exact ih above previous
    · exact ih _ _

theorem isPrefix_unlines (line : Text) (rest : List Text) : line <+: unlines (line :: rest) := by
  cases rest with
  | nil => exact ⟨[], by rw [unlines, List.intercalate_singleton, List.append_nil]⟩
  | cons l rest =>
    rw [unlines, List.intercalate_cons_cons, List.append_assoc]
    exact List.prefix_append _ _

/-- An item starts with its marker, whatever its segments come to. -/
theorem isPrefix_renderItem {depth : Nat} {s item : Text} {c : Char} {segments : List Segment}
    (hc : isBlank c = false)
    (h : (renderItem depth (s ++ [c] ++ [' ']) segments).outcome = .ok item) :
    s ++ [c] <+: item := by
  obtain ⟨_, after, text, held, kinds, _, _, _, rfl⟩ := renderItem_outcome h
  obtain ⟨rest, hlines⟩ := exists_addSegments_eq depth (markerLine (s ++ [c] ++ [' ']) text) []
    none (held.toList.map (SegmentKind.block, ·) ++ kinds.zip after)
  rw [itemText, hlines]
  exact (isPrefix_markerLine hc text).trans (isPrefix_unlines _ rest)

end Markdown

/-! ## Numbers -/

namespace Render

open Traced Markdown

/-- The items among the children of a list. -/
def itemsAmong (ns : List Node) : List Node := ns.filter fun n => n.tag == "li".toList

/-- The number that the first item of a list takes unless it has one of its own, none in a list of
bullets. -/
def startOf (list : Node) : Option Int :=
  if list.tag = "ol".toList then
    some (((numeral? (list.attribute? "start".toList)).map Numeral.value).getD 1)
  else none

/-- The numbers of items: each its own or one more than the number before. -/
def numbersFrom (due : Option Int) : List Node → List (Option Int)
  | [] => []
  | item :: rest =>
    let number := due.map (numberOf · item)
    number :: numbersFrom (number.map (· + 1)) rest

/-- What an item with a number starts with after the indentation. -/
def label : Option Int → Text
  | some n => Text.ofInt n ++ ".".toList
  | none => "-".toList

/-- The text is what an item of a list at a depth comes to. -/
def IsItemText (opts : Options) (scope : Scope) (depth : Nat) (item : Node) (text : Text) : Prop :=
  ∃ marker, (renderItem depth marker
    (itemSegments opts (⟨[], scope, item⟩ : Place).innerScope depth item)).outcome = .ok text

/-- The text is a list at a depth: each item starts with its number. -/
def IsNumbered (opts : Options) (scope : Scope) (depth : Nat) (list : Node) (t : Text) : Prop :=
  ∃ texts, t = Text.unlines texts ∧
    List.Forall₂ (IsItemText opts (⟨[], scope, list⟩ : Place).innerScope depth)
      (itemsAmong list.children) texts ∧
    List.Forall₂ (fun number text => Text.FirstLineStarts (indent depth ++ label number) text)
      (numbersFrom (startOf list) (itemsAmong list.children)) texts

variable {opts : Options} {scope : Scope} {depth : Nat} {due : Option Int}

theorem exists_label_eq (depth : Nat) (number : Option Int) :
    ∃ s c, indent depth ++ label number = s ++ [c] ∧ Text.isBlank c = false := by
  cases number with
  | none => exact ⟨indent depth, '-', rfl, by decide⟩
  | some n => exact ⟨indent depth ++ Text.ofInt n, '.', (List.append_assoc ..).symm, by decide⟩

theorem no_feed_ofInt (n : Int) : '\n' ∉ Text.ofInt n := by
  have hdigits : '\n' ∉ Text.ofNat n.natAbs := by
    intro h
    have hdigit : '\n'.isDigit = true := Nat.isDigit_of_mem_toDigits (by decide) (by decide) h
    exact absurd hdigit (by decide)
  unfold Text.ofInt
  split
  · simp [hdigits]
  · exact hdigits

theorem no_feed_label (depth : Nat) (number : Option Int) :
    '\n' ∉ indent depth ++ label number := by
  have hindent := no_feed_indent depth
  cases number with
  | none => simp [label, hindent]
  | some n => simp [label, hindent, no_feed_ofInt]

theorem itemMarker_eq {number : Option Int} {marker : Text}
    (h : itemMarker depth number = .ok marker) : marker = indent depth ++ label number ++ [' '] := by
  cases number with
  | none =>
    rw [← Except.ok.inj h, bulletMarker, List.append_assoc]
    rfl
  | some n =>
    by_cases hlength : (Text.ofNat n.natAbs).length ≤ digitLimit
    · rw [itemMarker, Text.writeInteger, if_pos hlength] at h
      rw [← Except.ok.inj h]
      simp [numberMarker, label]
    · rw [itemMarker, Text.writeInteger, if_neg hlength] at h
      cases h

theorem itemNumber_eq {n : Node} {number : Option Int} (h : itemNumber due n = .ok number) :
    number = due.map (numberOf · n) := by
  cases due with
  | none => exact (Except.ok.inj h).symm
  | some k => exact (itemNumber_eq_ok_iff.mp h).2

/-- An item starts with its marker whatever is in it. -/
theorem starts_renderItem {number : Option Int} {segments : List Segment} {text : Text}
    (h : (renderItem depth (indent depth ++ label number ++ [' ']) segments).outcome = .ok text) :
    Text.FirstLineStarts (indent depth ++ label number) text := by
  have hfeed := no_feed_label depth number
  obtain ⟨s, c, hlabel, hc⟩ := exists_label_eq depth number
  rw [hlabel] at h hfeed ⊢
  exact Text.firstLineStarts_of_isPrefix hfeed (isPrefix_renderItem hc h)

theorem items_numbered {ns : List Node} {texts : List Text}
    (h : (items opts scope depth due ns).outcome = .ok texts) :
    List.Forall₂ (IsItemText opts scope depth) (itemsAmong ns) texts ∧
      List.Forall₂ (fun number text => Text.FirstLineStarts (indent depth ++ label number) text)
        (numbersFrom due (itemsAmong ns)) texts := by
  induction ns generalizing due texts with
  | nil =>
    rw [items] at h
    rw [← Except.ok.inj h]
    exact ⟨.nil, .nil⟩
  | cons n ns ih =>
    rcases items_cons h with
      ⟨hli, number, marker, text, rest, hnumber, hmarker, htext, hrest, rfl⟩ | ⟨hli, hrest⟩
    · have hitem : itemsAmong (n :: ns) = n :: itemsAmong ns :=
        List.filter_cons_of_pos (beq_iff_eq.mpr hli)
      obtain ⟨htexts, hstarts⟩ := ih hrest
      rw [hitem, numbersFrom, ← itemNumber_eq hnumber]
      refine ⟨.cons ⟨marker, htext⟩ htexts, .cons ?_ hstarts⟩
      rw [itemMarker_eq hmarker] at htext
      exact starts_renderItem htext
    · have hother : itemsAmong (n :: ns) = itemsAmong ns :=
        List.filter_cons_of_neg fun h => hli (beq_iff_eq.mp h)
      rw [hother]
      exact ih hrest

theorem firstNumber_eq {n : Node} {first : Option Int}
    (h : firstNumber (n.tag == "ol".toList) n = .ok first) : first = startOf n := by
  unfold startOf
  split
  · rename_i hol
    rw [beq_iff_eq.mpr hol] at h
    exact (firstNumber_eq_ok_iff.mp h).2
  · rename_i hol
    rw [beq_eq_false_iff_ne.mpr hol] at h
    exact (Except.ok.inj h).symm

theorem list_numbered {n : Node} {t : Text} (h : (list opts scope depth n).outcome = .ok t) :
    IsNumbered opts scope depth n t := by
  cases n with
  | element name attrs cs =>
    simp only [list, bind_outcome_eq_ok_iff, ofSized_outcome_eq_ok_iff] at h
    obtain ⟨first, hfirst, texts, htexts, h⟩ := h
    rw [firstNumber_eq hfirst] at htexts
    obtain ⟨hitems, hstarts⟩ := items_numbered htexts
    exact ⟨texts, (Except.ok.inj h).symm, hitems, hstarts⟩
  | text t => exact ⟨[], (Except.ok.inj h).symm, .nil, .nil⟩
  | comment t => exact ⟨[], (Except.ok.inj h).symm, .nil, .nil⟩
  | directive k t => exact ⟨[], (Except.ok.inj h).symm, .nil, .nil⟩

/-! ## Lists where they stand -/

theorem ordered_eq {n : Node} {ordered : Bool} (h : n.role = .list ordered) :
    (n.tag == "ol".toList) = ordered := by
  have hlists : ∀ e ∈ Role.byTag, ∀ ordered, e.2 = Role.list ordered →
      (e.1 == "ol".toList) = ordered := by decide
  exact hlists _ (Node.mem_byTag (by rw [h]; nofun)) ordered h

/-- A list that is a block is a list at depth zero. -/
theorem block_of_list {n : Node} {ordered : Bool} (h : n.role = .list ordered) :
    block opts scope n = list opts scope 0 n := by
  cases n with
  | element name attrs cs =>
    rw [list, ordered_eq h]
    simp only [block, h]
  | text t => cases h
  | comment t => cases h
  | directive k t => cases h

theorem kind_of_mem_runSegment {nodes : List Node} {s : Segment}
    (hs : s ∈ runSegment scope nodes) : s.kind ≠ .nestedList := by
  unfold runSegment at hs
  split at hs
  · cases hs
  · rw [List.mem_singleton.mp hs]
    nofun

/-- A list in an item is a list one level deeper. -/
theorem nested_segment {ns pending : List Node} {s : Segment}
    (hs : s ∈ segments opts scope depth pending ns) (hkind : s.kind = .nestedList) :
    ∃ inner ∈ ns, s = ⟨.nestedList, [inner], list opts scope (depth + 1) inner⟩ := by
  induction ns generalizing pending with
  | nil => exact absurd hkind (kind_of_mem_runSegment hs)
  | cons n ns ih =>
    have hrest : ∀ {pending}, s ∈ segments opts scope depth pending ns →
        ∃ inner ∈ n :: ns, s = ⟨.nestedList, [inner], list opts scope (depth + 1) inner⟩ := by
      intro pending hs
      obtain ⟨inner, hinner, heq⟩ := ih hs
      exact ⟨inner, List.mem_cons_of_mem _ hinner, heq⟩
    by_cases hb : n.isBlock = true
    · by_cases hl : ∃ ordered, n.role = .list ordered
      · obtain ⟨ordered, hrole⟩ := hl
        cases n with
        | element name attrs cs =>
          rw [segments_list hrole, ← ordered_eq hrole, List.mem_append, List.mem_cons] at hs
          rcases hs with hs | rfl | hs
          · exact absurd hkind (kind_of_mem_runSegment hs)
          · exact ⟨_, List.mem_cons_self .., rfl⟩
          · exact hrest hs
        | text t => cases hrole
        | comment t => cases hrole
        | directive k t => cases hrole
      · rw [segments_block hb (not_exists.mp hl), List.mem_append, List.mem_cons] at hs
        rcases hs with hs | rfl | hs
        · exact absurd hkind (kind_of_mem_runSegment hs)
        · cases hkind
        · exact hrest hs
    · rw [segments_inline (Bool.eq_false_iff.mpr hb)] at hs
      exact hrest hs

/-- The lists of a document are numbered, and none stays open.  With any stack of open lists a node
comes to what it comes to without one, as a block and as a list at any depth, and the stack is left
as it was, whether that is a value or a fault.  A list that comes to a value shows the number of each
item, and so does every list that is a block or stands in an item. -/
theorem lists_numbered_and_closed (opts : Options) (scope : Scope) (depth : Nat) (n : Node)
    (lists : List ListContext) :
    Session.block opts scope n lists = ((block opts scope n).outcome, lists) ∧
      Session.list opts scope depth n lists = ((list opts scope depth n).outcome, lists) ∧
      (∀ t, (list opts scope depth n).outcome = .ok t → IsNumbered opts scope depth n t) ∧
      (∀ ordered, n.role = .list ordered → block opts scope n = list opts scope 0 n) ∧
      ∀ s ∈ itemSegments opts scope depth n, s.kind = .nestedList →
        ∃ inner ∈ n.children, s = ⟨.nestedList, [inner], list opts scope (depth + 1) inner⟩ :=
  ⟨Session.follows_iff.mp ((Session.steady n).here.block scope) lists,
    Session.follows_iff.mp (Session.follows_list scope depth n) lists,
    fun _ => list_numbered, fun _ => block_of_list, fun _ => nested_segment⟩

/-- Two items of a numbered list, the second one with a number of its own, and lists in the first. -/
def mixedList : Node :=
  .element "ol".toList [("start".toList, some "3".toList)]
    [.element "li".toList [] [.text "a".toList,
        .element "ul".toList [("start".toList, some "5".toList)]
          [.element "li".toList [("value".toList, some "9".toList)] [.text "b".toList]],
        .element "blockquote".toList []
          [.element "ol".toList [] [.element "li".toList [] [.text "c".toList]]]],
      .element "li".toList [("value".toList, some "-2".toList)] [.text "d".toList],
      .element "li".toList [("value".toList, some "2.5".toList)] []]

theorem mixedList_numbered :
    numbersFrom (startOf mixedList) (itemsAmong mixedList.children) =
        [some 3, some (-2), some (-1)] ∧
      (list Options.standard [] 0 mixedList).outcome =
        .ok "3. a\n  - b\n\n  > 1. c\n-2. d\n-1.".toList ∧
      IsNumbered Options.standard [] 0 mixedList "3. a\n  - b\n\n  > 1. c\n-2. d\n-1.".toList :=
  ⟨rfl, rfl, (lists_numbered_and_closed Options.standard [] 0 mixedList []).2.2.1 _ rfl⟩

end Render

end Hypermark
