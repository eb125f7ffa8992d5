import Hypermark.Proofs.LiveBars

/-!
# Tables as lines of segments

Every line of a table but the one with the dashes is a list of segments between bars, and every row
is shown by a group of such lines.  Read down one column, the group of a row gives the lines of the
value in that column again: the layouts only add white space, and drop lines that are blank.

* `plain_eq`, `stacked_eq`: both layouts as sheets of segments.
* `readColumn_plainGroup`, `readColumn_stackedGroup`: what a group shows in a column.
* `liveBars_tableLine`, `cutBars_tableLine`: the bars of a line whose segments have none.
-/

namespace Hypermark.Table

open Text Markdown

/-! ## Lines and groups -/

/-- A line of a table with its segments. -/
def tableLine (segments : List Text) : Text :=
  "| ".toList ++ joinCells segments ++ " |".toList

/-- The line below the header, given by the lengths of its groups of dashes. -/
def dashLine (groups : List Nat) : Text :=
  '|' :: ['|'].intercalate (groups.map fun n => List.replicate n '-') ++ ['|']

/-- The lines of a row in the plain layout, blank ones as well. -/
def plainRows (columns : List Column) (cells : List (List Text)) : List (List Text) :=
  (List.range ((cells.map List.length).foldl max 0)).map fun i =>
    List.zipWith (cellAt i) cells columns

/-- The lines of a row in the plain layout, a row with nothing to show being one line of spaces. -/
def plainGroup (columns : List Column) (cells : List (List Text)) : List (List Text) :=
  match (plainRows columns cells).filter (!·.all allBlank) with
  | [] => [columns.map fun c => List.replicate c.width ' ']
  | visible => visible

/-- Segment `i` of a column, padded to its width unless empty. -/
def stackedSegment (i : Nat) (segments : List Text) : Text :=
  let segment := segments.getD i []
  if segment.isEmpty then [] else justify (widest segments) segment

/-- The lines of a row in the stacked layout. -/
def stackedGroup (values : List Text) : List (List Text) :=
  match values with
  | [] => [[]]
  | _ =>
    let columns := values.map fun v => lines (unifyBreaks (escapeCellLine v))
    (List.range ((columns.map List.length).foldl max 0)).map fun i => columns.map (stackedSegment i)

/-- Between borders a line without any character becomes one space. -/
def filled : List Text → List Text
  | [] => [[' ']]
  | [[]] => [[' ']]
  | segments => segments

/-- A table in segments: the lines of the header, the groups of dashes below, and a group of lines
for every other row. -/
structure Sheet where
  head : List (List Text)
  dashes : List Nat
  body : List (List (List Text))

def Sheet.lines (s : Sheet) : List Text :=
  s.head.map tableLine ++ dashLine s.dashes :: s.body.flatMap (·.map tableLine)

def plainColumns (header : List Text) (others : List (List Text)) : List Column :=
  let n := columnCount header others
  columnsOf n ((header :: others).map fun values => (padRow n values).map cellLines)

def plainSheet (header : List Text) (others : List (List Text)) : Sheet :=
  let n := columnCount header others
  let columns := plainColumns header others
  ⟨plainGroup columns ((padRow n header).map cellLines), columns.map fun c => max (c.width + 2) 3,
    others.map fun values => plainGroup columns ((padRow n values).map cellLines)⟩

def stackedSheet (header : List Text) (others : List (List Text)) : Sheet :=
  ⟨(stackedGroup header).map filled,
    header.map fun v => max (max (widest (cellLines v)) 1 + 2) 3,
    others.map fun values => (stackedGroup values).map filled⟩

/-! ## The layouts as sheets -/

theorem separator_eq (widths : List Nat) :
    separator (widths.map Int.ofNat) = dashLine (widths.map fun w => max (w + 2) 3) := by
  have hwidth : ∀ w : Nat, (max (Int.ofNat w + 2) 3).toNat = max (w + 2) 3 := fun w => by
    simp only [Int.ofNat_eq_natCast]
    omega
  rw [separator, dashLine, List.map_map, List.map_map]
  simp only [Function.comp_def, hwidth]

theorem rowLines_eq (columns : List Column) (cells : List (List Text)) :
    rowLines columns cells = (plainGroup columns cells).map tableLine := by
  have hrows : rowLines columns cells =
      match (plainRows columns cells).filter (!·.all allBlank) with
      | [] => ["| ".toList ++ joinCells (columns.map fun c => List.replicate c.width ' ') ++
          " |".toList]
      | visible => visible.map fun values => "| ".toList ++ joinCells values ++ " |".toList := rfl
  rw [hrows, plainGroup]
  cases (plainRows columns cells).filter (!·.all allBlank) with
  | nil => rfl
  | cons l ls => rfl

theorem stackedGroup_of_ne_nil {values : List Text} (h : values ≠ []) : stackedGroup values =
    (List.range (((values.map fun v => lines (unifyBreaks (escapeCellLine v))).map
      List.length).foldl max 0)).map fun i =>
        (values.map fun v => lines (unifyBreaks (escapeCellLine v))).map (stackedSegment i) := by
  obtain ⟨v, vs, rfl⟩ := List.exists_cons_of_ne_nil h
  rfl

theorem stackedLines_eq (values : List Text) :
    stackedLines values = (stackedGroup values).map joinCells := by
  cases values with
  | nil => rfl
  | cons v vs =>
    rw [stackedGroup_of_ne_nil (List.cons_ne_nil v vs)]
    exact (List.map_map ..).symm

theorem joinCells_cons_cons (s t : Text) (rest : List Text) :
    joinCells (s :: t :: rest) = s ++ ' ' :: '|' :: ' ' :: joinCells (t :: rest) := by
  rw [joinCells, List.intercalate_cons_cons, List.append_assoc]
  rfl

theorem bordered_joinCells (segments : List Text) :
    bordered (joinCells segments) = tableLine (filled segments) := by
  match segments with
  | [] => rfl
  | [[]] => rfl
  | [c :: s] => rfl
  | s :: t :: rest =>
    have hne : (joinCells (s :: t :: rest)).isEmpty = false := by
      rw [joinCells_cons_cons]
      cases s <;> rfl
    rw [bordered, if_neg (by simp [hne]), filled]
    · rfl
    · simp
    · simp

theorem plain_eq (header : List Text) (others : List (List Text)) :
    plain header others = unlines (plainSheet header others).lines := by
  have hwidths : ∀ columns : List Column,
      separator (columns.map (·.width)) = dashLine (columns.map fun c => max (c.width + 2) 3) :=
    fun columns => by
      have h := separator_eq (columns.map (·.width))
      rwa [List.map_map, List.map_map] at h
  simp only [plain, hwidths, rowLines_eq, List.flatMap_map]
  simp only [plainSheet, Sheet.lines, plainColumns, List.map_cons, List.flatMap_map]

theorem stacked_eq (header : List Text) (others : List (List Text)) :
    stacked header others = unlines (stackedSheet header others).lines := by
  have hgroup : ∀ values, (stackedLines values).map bordered =
      ((stackedGroup values).map filled).map tableLine := fun values => by
    rw [stackedLines_eq, List.map_map, List.map_map]
    exact List.map_congr_left fun segments _ => bordered_joinCells segments
  simp only [stacked, separator_eq, hgroup, stackedSheet, Sheet.lines, List.flatMap_map]
  simp only [List.map_map]
  rfl

/-! ## Predicates that padding keeps -/

/-- The predicate holds of the empty text and stays when spaces are added. -/
structure KeptByPadding (P : Text → Prop) : Prop where
  nil : P []
  pad : ∀ t n, P t → P (t ++ List.replicate n ' ')

namespace KeptByPadding

theorem no_feed : KeptByPadding ('\n' ∉ ·) where
  nil := List.not_mem_nil
  pad t n h hmem := by
    rcases List.mem_append.mp hmem with hmem | hmem
    · exact h hmem
    · exact absurd (List.eq_of_mem_replicate hmem) (by decide)

theorem no_bar : KeptByPadding (liveBars · = 0) where
  nil := rfl
  pad t n h := by
    rw [← h]
    exact liveBars_append_blank t <| List.all_eq_true.mpr fun _ hc => by
      rw [List.eq_of_mem_replicate hc]
      rfl

variable {P : Text → Prop} (hP : KeptByPadding P)
include hP

theorem getD {ls : List Text} (h : ∀ l ∈ ls, P l) (i : Nat) : P (ls.getD i []) := by
  rw [List.getD_eq_getElem?_getD]
  cases hl : ls[i]? with
  | none => exact hP.nil
  | some l => exact h l (List.mem_of_getElem? hl)

theorem plainGroup {columns : List Column} {cells : List (List Text)}
    (h : ∀ cell ∈ cells, ∀ l ∈ cell, P l) :
    ∀ line ∈ plainGroup columns cells, ∀ s ∈ line, P s := by
  intro line hline s hs
  rw [Table.plainGroup] at hline
  split at hline
  · rw [List.mem_singleton] at hline
    subst hline
    obtain ⟨c, _, rfl⟩ := List.mem_map.mp hs
    exact hP.pad [] c.width hP.nil
  · obtain ⟨i, _, rfl⟩ := List.mem_map.mp (List.mem_filter.mp hline).1
    obtain ⟨j, hj, rfl⟩ := List.getElem_of_mem hs
    have hcells : j < cells.length := by
      rw [List.length_zipWith] at hj
      omega
    have hcell := hP.getD (h _ (List.getElem_mem hcells)) i
    rw [List.getElem_zipWith, cellAt]
    split
    · exact hP.pad _ _ hcell
    · exact hcell

theorem stackedGroup {values : List Text}
    (h : ∀ v ∈ values, ∀ l ∈ lines (unifyBreaks (escapeCellLine v)), P l) :
    ∀ line ∈ (stackedGroup values).map filled, ∀ s ∈ line, P s := by
  have hspace : P [' '] := hP.pad [] 1 hP.nil
  have hgroup : ∀ line ∈ Table.stackedGroup values, ∀ s ∈ line, P s := by
    intro line hline s hs
    by_cases hvalues : values = []
    · subst hvalues
      rw [List.mem_singleton.mp hline] at hs
      cases hs
    · rw [stackedGroup_of_ne_nil hvalues] at hline
      obtain ⟨i, _, rfl⟩ := List.mem_map.mp hline
      obtain ⟨segments, hsegments, rfl⟩ := List.mem_map.mp hs
      obtain ⟨v, hv, rfl⟩ := List.mem_map.mp hsegments
      rw [stackedSegment]
      split
      · exact hP.nil
      · exact hP.pad _ _ (hP.getD (h v hv) i)
  intro line hline s hs
  obtain ⟨segments, hsegments, rfl⟩ := List.mem_map.mp hline
  unfold filled at hs
  split at hs
  · rwa [List.mem_singleton.mp hs]
  · rwa [List.mem_singleton.mp hs]
  · exact hgroup segments hsegments s hs

end KeptByPadding

/-! ## Reading a column -/

/-- What a group of lines shows in a column, without padding. -/
def readColumn (j : Nat) (group : List (List Text)) : List Text :=
  shown (group.map (·.getD j []))

theorem le_foldl_max {n : Nat} {ns : List Nat} (h : n ∈ ns) : n ≤ ns.foldl max 0 :=
  ((foldl_max_le_iff ns 0 _).mp (Nat.le_refl _)).2 n h

theorem shown_append (ls ks : List Text) : shown (ls ++ ks) = shown ls ++ shown ks := by
  rw [shown, List.map_append, List.filter_append]
  rfl

theorem shown_replicate_nil (n : Nat) : shown (List.replicate n []) = [] := by
  induction n with
  | zero => rfl
  | succ n ih => rw [List.replicate_succ, shown_nil_cons, ih]

/-- Lines are shown as before if they are asked for one by one, beyond their end as well. -/
theorem shown_map_range {f : Nat → Text} {ls : List Text} {height : Nat}
    (hf : ∀ i, trim (f i) = trim (ls.getD i [])) (h : ls.length ≤ height) :
    shown ((List.range height).map f) = shown ls := by
  have hpadded : (List.range height).map (ls.getD · []) =
      ls ++ List.replicate (height - ls.length) [] := by
    refine List.ext_getElem (by simp; omega) fun i hi _ => ?_
    rw [List.getElem_map, List.getElem_range, List.getElem_append]
    split
    · rename_i hlt
      rw [List.getD_eq_getElem?_getD, List.getElem?_eq_getElem hlt]
      rfl
    · rename_i hge
      rw [List.getD_eq_getElem?_getD, List.getElem?_eq_none (by omega), List.getElem_replicate]
      rfl
  have htrim : ((List.range height).map f).map trim =
      ((List.range height).map (ls.getD · [])).map trim := by
    rw [List.map_map, List.map_map]
    exact List.map_congr_left fun i _ => hf i
  rw [shown, htrim, hpadded]
  show shown _ = _
  rw [shown_append, shown_replicate_nil, List.append_nil]

theorem trim_justify (n : Nat) (t : Text) : trim (justify n t) = trim t :=
  trim_append_blank t <| List.all_eq_true.mpr fun _ hc => by
    rw [List.eq_of_mem_replicate hc]
    rfl

theorem trim_cellAt (i : Nat) (cell : List Text) (column : Column) :
    trim (cellAt i cell column) = trim (cell.getD i []) := by
  rw [cellAt]
  split
  · rw [trim_justify]
  · rfl

theorem trim_stackedSegment (i : Nat) (segments : List Text) :
    trim (stackedSegment i segments) = trim (segments.getD i []) := by
  rw [stackedSegment]
  split
  · rename_i h
    rw [List.isEmpty_iff.mp h]
  · rw [trim_justify]

theorem allBlank_getD {segments : List Text} (h : segments.all allBlank = true) (j : Nat) :
    trim (segments.getD j []) = [] := by
  rw [trim_eq_nil_iff, List.getD_eq_getElem?_getD]
  cases hs : segments[j]? with
  | none => rfl
  | some s => exact List.all_eq_true.mp h s (List.mem_of_getElem? hs)

/-- Lines without anything on them show nothing in any column. -/
theorem readColumn_filter (j : Nat) (group : List (List Text)) :
    readColumn j (group.filter (!·.all allBlank)) = readColumn j group := by
  induction group with
  | nil => rfl
  | cons line group ih =>
    cases hline : line.all allBlank with
    | true =>
      rw [List.filter_cons_of_neg (by simp [hline]), ih, readColumn, readColumn, List.map_cons,
        shown_cons, allBlank_getD hline]
      rfl
    | false =>
      rw [List.filter_cons_of_pos (by simp [hline])]
      simp only [readColumn, List.map_cons, shown_cons] at ih ⊢
      rw [ih]

theorem readColumn_plainGroup {columns : List Column} {cells : List (List Text)}
    (hlength : cells.length = columns.length) (j : Nat) :
    readColumn j (plainGroup columns cells) = shown (cells.getD j []) := by
  have hrows : readColumn j (plainRows columns cells) = shown (cells.getD j []) := by
    rw [readColumn, plainRows, List.map_map]
    apply shown_map_range
    · intro i
      show trim ((List.zipWith (cellAt i) cells columns).getD j []) = _
      rw [List.getD_eq_getElem?_getD, List.getD_eq_getElem?_getD (l := cells)]
      rcases Nat.lt_or_ge j cells.length with hj | hj
      · have hj' : j < (List.zipWith (cellAt i) cells columns).length := by simp; omega
        rw [List.getElem?_eq_getElem hj', List.getElem?_eq_getElem hj, List.getElem_zipWith]
        exact trim_cellAt i _ _
      · rw [List.getElem?_eq_none (by simp; omega), List.getElem?_eq_none hj]
        rfl
    · rw [List.getD_eq_getElem?_getD]
      cases hcell : cells[j]? with
      | none => exact Nat.zero_le _
      | some cell => exact le_foldl_max (List.mem_map_of_mem (List.mem_of_getElem? hcell))
  rw [← hrows, ← readColumn_filter j (plainRows columns cells), plainGroup]
  split
  · rename_i hnil
    rw [hnil]
    refine List.filter_eq_nil_iff.mpr fun l hl => ?_
    obtain ⟨s, hs, rfl⟩ := List.mem_map.mp hl
    rw [List.map_singleton, List.mem_singleton] at hs
    have hspaces : (columns.map fun c => List.replicate c.width ' ').all allBlank = true := by
      rw [List.all_map, List.all_eq_true]
      intro c _
      exact List.all_eq_true.mpr fun _ hc => by rw [List.eq_of_mem_replicate hc]; rfl
    rw [hs, allBlank_getD hspaces]
    decide
  · rfl

theorem readColumn_filled (j : Nat) (group : List (List Text)) :
    readColumn j (group.map filled) = readColumn j group := by
  have hline : ∀ line, trim ((filled line).getD j []) = trim (line.getD j []) := by
    intro line
    unfold filled
    split
    · cases j <;> rfl
    · cases j <;> rfl
    · rfl
  rw [readColumn, readColumn, shown, shown, List.map_map, List.map_map, List.map_map]
  simp only [Function.comp_def, hline]

theorem readColumn_stackedGroup (values : List Text) (j : Nat) :
    readColumn j (stackedGroup values) = displayLines (escapeCellLine (values.getD j [])) := by
  cases values with
  | nil => rfl
  | cons v vs =>
    rw [stackedGroup_of_ne_nil (List.cons_ne_nil v vs), readColumn, List.map_map]
    apply shown_map_range
    · intro i
      show trim ((((v :: vs).map _).map (stackedSegment i)).getD j []) = _
      rw [List.map_map, List.getD_eq_getElem?_getD, List.getD_eq_getElem?_getD (l := v :: vs),
        List.getElem?_map]
      cases hv : (v :: vs)[j]? with
      | none =>
        have hnil : lines (unifyBreaks (escapeCellLine [])) = [[]] := rfl
        show trim [] = trim ((lines (unifyBreaks (escapeCellLine []))).getD i [])
        rw [hnil]
        cases i <;> rfl
      | some w => exact trim_stackedSegment i _
    · rw [List.getD_eq_getElem?_getD]
      cases hv : (v :: vs)[j]? with
      | none =>
        refine Nat.le_trans ?_ (le_foldl_max (n := (lines (unifyBreaks (escapeCellLine v))).length)
          (by simp))
        exact List.length_pos_of_ne_nil (List.splitOn_ne_nil _ _)
      | some w =>
        apply le_foldl_max
        rw [List.map_map]
        exact List.mem_map_of_mem (f := List.length ∘ _) (List.mem_of_getElem? hv)

/-! ## Sizes -/

theorem length_of_mem_plainGroup {columns : List Column} {cells : List (List Text)}
    (hlength : cells.length = columns.length) {line : List Text}
    (h : line ∈ plainGroup columns cells) : line.length = columns.length := by
  rw [plainGroup] at h
  split at h
  · rw [List.mem_singleton.mp h, List.length_map]
  · obtain ⟨i, _, rfl⟩ := List.mem_map.mp (List.mem_filter.mp h).1
    rw [List.length_zipWith, hlength, Nat.min_self]

theorem plainGroup_ne_nil (columns : List Column) (cells : List (List Text)) :
    plainGroup columns cells ≠ [] := by
  rw [plainGroup]
  split
  · exact List.cons_ne_nil _ _
  · rename_i h
    exact h

theorem length_filled {segments : List Text} (h : segments ≠ []) :
    (filled segments).length = segments.length := by
  unfold filled
  split
  · exact absurd rfl h
  · rfl
  · rfl

theorem length_of_mem_stackedGroup {values : List Text} (hvalues : values ≠ []) {line : List Text}
    (h : line ∈ (stackedGroup values).map filled) : line.length = values.length := by
  obtain ⟨segments, hsegments, rfl⟩ := List.mem_map.mp h
  rw [stackedGroup_of_ne_nil hvalues] at hsegments
  obtain ⟨i, _, rfl⟩ := List.mem_map.mp hsegments
  rw [length_filled (by simpa using hvalues), List.length_map, List.length_map]

theorem stackedGroup_ne_nil (values : List Text) : stackedGroup values ≠ [] := by
  intro h
  have hlines := stackedLines_ne_nil values
  rw [stackedLines_eq, h] at hlines
  exact hlines rfl

/-! ## Bars and line feeds of a line -/

theorem liveBars_tableLine {segments : List Text} (hne : segments ≠ [])
    (h : ∀ s ∈ segments, liveBars s = 0) : liveBars (tableLine segments) = segments.length + 1 := by
  have hjoined : ∀ (s : Text) (rest : List Text), liveBars s = 0 → (∀ t ∈ rest, liveBars t = 0) →
      liveBars (joinCells (s :: rest) ++ " |".toList) = rest.length + 1 := by
    intro s rest
    induction rest generalizing s with
    | nil =>
      intro hs _
      show liveBars (joinCells [s] ++ ' ' :: ['|']) = 1
      rw [liveBars_append_cons (by decide) (by decide), joinCells, List.intercalate_singleton, hs]
      rfl
    | cons t rest ih =>
      intro hs hrest
      rw [List.forall_mem_cons] at hrest
      rw [joinCells_cons_cons, List.append_assoc, List.cons_append, List.cons_append,
        List.cons_append, liveBars_append_cons (by decide) (by decide), liveBars_bar,
        liveBars_cons (by decide) (by decide), ih t hrest.1 hrest.2, hs, List.length_cons]
      omega
  obtain ⟨s, rest, rfl⟩ := List.exists_cons_of_ne_nil hne
  rw [List.forall_mem_cons] at h
  rw [tableLine, List.append_assoc]
  show liveBars ('|' :: ' ' :: (joinCells (s :: rest) ++ " |".toList)) = _
  rw [liveBars_bar, liveBars_cons (by decide) (by decide), hjoined s rest h.1 h.2, List.length_cons]

/-- A line is cut at its bars into its segments, each between two spaces. -/
theorem cutBars_tableLine {segments : List Text} (hne : segments ≠ [])
    (h : ∀ s ∈ segments, liveBars s = 0) : cutBars (tableLine segments) =
      [] :: segments.map (fun s => ' ' :: s ++ [' ']) ++ [[]] := by
  have hspaced : ∀ {s : Text}, liveBars s = 0 → liveBars (' ' :: s) = 0 := fun hs => by
    rw [liveBars_cons (by decide) (by decide), hs]
  have hjoined : ∀ (s : Text) (rest : List Text), liveBars s = 0 → (∀ t ∈ rest, liveBars t = 0) →
      cutBars (' ' :: joinCells (s :: rest) ++ " |".toList) =
        (s :: rest).map (fun s => ' ' :: s ++ [' ']) ++ [[]] := by
    intro s rest
    induction rest generalizing s with
    | nil =>
      intro hs _
      show cutBars ((' ' :: joinCells [s]) ++ ' ' :: '|' :: []) = _
      rw [joinCells, List.intercalate_singleton, cutBars_append_bar (hspaced hs)]
      rfl
    | cons t rest ih =>
      intro hs hrest
      rw [List.forall_mem_cons] at hrest
      have hcut := cutBars_append_bar (hspaced hs) (' ' :: joinCells (t :: rest) ++ " |".toList)
      rw [ih t hrest.1 hrest.2] at hcut
      rw [joinCells_cons_cons, List.map_cons]
      show _ = (' ' :: s ++ [' ']) :: (_ ++ [[]])
      rw [← hcut]
      simp only [List.cons_append, List.append_assoc]
  obtain ⟨s, rest, rfl⟩ := List.exists_cons_of_ne_nil hne
  rw [List.forall_mem_cons] at h
  have hfirst : ∀ t : Text, cutBars ('|' :: t) = [] :: cutBars t := fun t => by
    rw [cutBars, readFrom_char (by decide)]
    show (List.splitOnP Met.isBar (Met.bar false :: readFrom false t)).map _ = _
    rw [List.splitOnP_cons_eq_if_modifyHead, if_pos (show (Met.bar false).isBar = true from rfl)]
    rfl
  rw [tableLine, List.append_assoc]
  show cutBars ('|' :: (' ' :: joinCells (s :: rest) ++ " |".toList)) = _
  rw [hfirst, hjoined s rest h.1 h.2]
  rfl

theorem liveBars_dashLine {groups : List Nat} (hne : groups ≠ []) :
    liveBars (dashLine groups) = groups.length + 1 := by
  have hdashes : ∀ (n : Nat) (t : Text), liveBars (List.replicate n '-' ++ t) = liveBars t :=
    fun n t => liveBars_quiet_append (fun c hc => by
      rw [List.eq_of_mem_replicate hc]
      decide) t
  have hjoined : ∀ (n : Nat) (rest : List Nat), liveBars
      (['|'].intercalate ((n :: rest).map fun n => List.replicate n '-') ++ ['|']) =
        rest.length + 1 := by
    intro n rest
    induction rest generalizing n with
    | nil =>
      rw [List.map_singleton, List.intercalate_singleton, hdashes]
      rfl
    | cons m rest ih =>
      have hrest := ih m
      rw [List.map_cons] at hrest
      rw [List.map_cons, List.map_cons, List.intercalate_cons_cons, List.append_assoc,
        List.append_assoc, hdashes, List.singleton_append, liveBars_bar, hrest, List.length_cons]
  obtain ⟨n, rest, rfl⟩ := List.exists_cons_of_ne_nil hne
  rw [dashLine, List.cons_append, liveBars_bar, hjoined, List.length_cons]

theorem no_feed_joinCells {segments : List Text} (h : ∀ s ∈ segments, '\n' ∉ s) :
    '\n' ∉ joinCells segments := by
  induction segments with
  | nil => exact List.not_mem_nil
  | cons s rest ih =>
    rw [List.forall_mem_cons] at h
    cases rest with
    | nil =>
      rw [joinCells, List.intercalate_singleton]
      exact h.1
    | cons t rest =>
      rw [joinCells_cons_cons]
      simp only [List.mem_append, List.mem_cons, not_or]
      exact ⟨h.1, by decide, by decide, by decide, ih h.2⟩

theorem no_feed_tableLine {segments : List Text} (h : ∀ s ∈ segments, '\n' ∉ s) :
    '\n' ∉ tableLine segments := by
  rw [tableLine, List.mem_append, List.mem_append, not_or, not_or]
  exact ⟨⟨by decide, no_feed_joinCells h⟩, by decide⟩

theorem no_feed_dashLine (groups : List Nat) : '\n' ∉ dashLine groups := by
  induction groups with
  | nil => decide
  | cons n groups ih =>
    have hdashes : '\n' ∉ List.replicate n '-' := fun hmem =>
      absurd (List.eq_of_mem_replicate hmem) (by decide)
    cases groups with
    | nil =>
      rw [dashLine, List.map_singleton, List.intercalate_singleton]
      simp only [List.cons_append, List.mem_cons, List.mem_append, not_or]
      exact ⟨by decide, hdashes, by decide, List.not_mem_nil⟩
    | cons m groups =>
      rw [dashLine] at ih ⊢
      rw [List.map_cons, List.map_cons, List.intercalate_cons_cons]
      rw [List.map_cons] at ih
      simp only [List.cons_append, List.append_assoc, List.mem_cons, List.mem_append, not_or] at ih ⊢
      exact ⟨by decide, hdashes, by decide, by decide, ih.2⟩

/-- A sheet without line feeds in its segments is cut into its lines again. -/
theorem Sheet.lines_unlines {s : Sheet} (hhead : ∀ line ∈ s.head, ∀ t ∈ line, '\n' ∉ t)
    (hbody : ∀ group ∈ s.body, ∀ line ∈ group, ∀ t ∈ line, '\n' ∉ t) :
    Text.lines (unlines s.lines) = s.lines := by
  refine Text.lines_unlines (by simp [Sheet.lines]) fun l hl => ?_
  rw [Sheet.lines, List.mem_append, List.mem_cons, List.mem_flatMap] at hl
  rcases hl with hl | rfl | ⟨group, hgroup, hl⟩
  · obtain ⟨line, hline, rfl⟩ := List.mem_map.mp hl
    exact no_feed_tableLine (hhead line hline)
  · exact no_feed_dashLine s.dashes
  · obtain ⟨line, hline, rfl⟩ := List.mem_map.mp hl
    exact no_feed_tableLine (hbody group hgroup line hline)

end Hypermark.Table
