import Hypermark.Proofs.Exposure
import Hypermark.Proofs.ItemNumbers
import Hypermark.Proofs.References
import Hypermark.Proofs.TableShape

/-!
# Blocks that show nothing

Some blocks come to nothing although there is something in them: a list without items, a definition
list in which no term has a meaning, a table without rows, and whatever is made of such blocks only.
`silent` tells them from the tree, `IsBlank` by what is rendered.

* `told`: a block comes to nothing exactly if it is silent.
* `siblings_isBlank_iff`, `showsNothing_iff`: the same for siblings.
-/

namespace Hypermark

open Traced Text

/-! ## Blank texts -/

namespace Text

variable {s t : Text}

/-- A text is blank if it has no ink of any kind. -/
theorem allBlank_iff_ink : allBlank t = true ↔ ink (fun c => !isBlank c) t = [] := by
  rw [ink, List.filter_eq_nil_iff, allBlank, List.all_eq_true]
  simp only [Bool.not_eq_true', Bool.not_eq_false]

theorem allBlank_intercalate {sep : Text} (hsep : allBlank sep = true) (ts : List Text) :
    allBlank (sep.intercalate ts) = true ↔ ∀ t ∈ ts, allBlank t = true := by
  rw [allBlank_iff_ink, ink_intercalate (allBlank_iff_ink.mp hsep), List.flatMap_eq_nil_iff]
  exact forall₂_congr fun t _ => allBlank_iff_ink.symm

theorem allBlank_joinBlocks (ts : List Text) :
    allBlank (joinBlocks ts) = true ↔ ∀ t ∈ ts, allBlank t = true :=
  allBlank_intercalate (by decide) ts

theorem allBlank_unlines (ls : List Text) :
    allBlank (unlines ls) = true ↔ ∀ l ∈ ls, allBlank l = true :=
  allBlank_intercalate (by decide) ls

end Text

namespace Markdown

theorem headingLineFrom_eq_nil_iff (n : Nat) (t : Text) :
    headingLineFrom (.spaces n) t = [] ↔ n = 0 ∧ t = [] := by
  induction t generalizing n with
  | nil => rw [headingLineFrom, List.replicate_eq_nil_iff, and_iff_left rfl]
  | cons c t ih =>
    rw [headingLineFrom]
    split
    · rw [ih]
      simp
    · split
      · simp
      · simp

theorem allBlank_heading {level : Nat} (hlevel : 0 < level) (t : Text) :
    allBlank (heading level t) = true ↔ t = [] := by
  have hline : (headingLine t).isEmpty = true ↔ t = [] := by
    rw [List.isEmpty_iff, headingLine, headingLineFrom_eq_nil_iff, and_iff_right rfl]
  rw [heading, ← hline]
  split
  · rename_i hempty
    exact iff_of_true rfl hempty
  · rename_i hempty
    have hmark : '#' ∈ List.replicate level '#' ++ ' ' :: headingLine t :=
      List.mem_append_left _ (List.mem_replicate.mpr ⟨Nat.ne_of_gt hlevel, rfl⟩)
    rw [not_allBlank_of_mem hmark (by decide)]
    exact iff_of_false Bool.false_ne_true hempty

theorem allBlank_quote (t : Text) : allBlank (quote t) = allBlank t := by
  cases hblank : allBlank t with
  | true =>
    rw [quote_of_allBlank hblank]
    rfl
  | false =>
    rw [quote, hblank, if_neg Bool.false_ne_true]
    obtain ⟨l, ls, hlines⟩ := List.exists_cons_of_ne_nil (List.splitOn_ne_nil '\n' t)
    have hquoted : allBlank (quoteLine l) = false := by
      rw [quoteLine]
      split
      · rfl
      · exact not_allBlank_of_mem (List.mem_cons_self ..) (by decide)
    rw [← Bool.not_eq_true, allBlank_unlines, lines, hlines, List.map_cons, List.forall_mem_cons,
      hquoted]
    exact fun h => Bool.false_ne_true h.1

theorem not_allBlank_fencedBlock (least : Nat) (info code : Text) :
    allBlank (fencedBlock least info code) = false := by
  have hfence : backtick ∈ codeFence least code :=
    List.mem_replicate.mpr ⟨Nat.ne_of_gt (fenceLength_pos least code), rfl⟩
  refine not_allBlank_of_mem (c := backtick) ?_ (by decide)
  rw [fencedBlock, List.append_assoc, List.append_assoc]
  exact List.mem_append_left _ hfence

theorem definitionEntry_eq_nil_iff (term : Text) (meanings : List Text) :
    definitionEntry term meanings = [] ↔ meanings = [] := by
  cases meanings with
  | nil => exact iff_of_true rfl rfl
  | cons m meanings => exact iff_of_false (List.cons_ne_nil _ _) (List.cons_ne_nil _ _)

theorem entryLines_term_eq_nil_iff (t : Text) (ds : List Definition) :
    entryLines (.term t :: ds) = [] ↔ entryLines ds = [] := by
  rw [entryLines, List.append_eq_nil_iff]
  refine and_iff_right_of_imp fun hlines => ?_
  cases ds with
  | nil => rfl
  | cons d ds =>
    cases d with
    | term t => rfl
    | meaning m => cases hlines

theorem definitionEntries_eq_nil_iff (term : Text) (meanings : List Text) (ds : List Definition) :
    definitionEntries term meanings ds = [] ↔ meanings = [] ∧ entryLines ds = [] := by
  induction ds generalizing term meanings with
  | nil => rw [definitionEntries, definitionEntry_eq_nil_iff, entryLines, eq_self, and_true]
  | cons d ds ih =>
    cases d with
    | term t =>
      rw [definitionEntries, List.append_eq_nil_iff, definitionEntry_eq_nil_iff, ih t [],
        and_iff_right rfl, entryLines_term_eq_nil_iff]
    | meaning m =>
      rw [definitionEntries, ih term (meanings ++ [m]), entryLines]
      exact iff_of_false (fun h => List.append_ne_nil_of_right_ne_nil _ (List.cons_ne_nil _ _) h.1)
        fun h => List.cons_ne_nil _ _ h.2

/-- Every entry has a meaning and so its mark. -/
theorem not_allBlank_definitionEntries (term : Text) (meanings : List Text) (ds : List Definition) :
    ∀ entry ∈ definitionEntries term meanings ds, allBlank entry = false := by
  have hentry : ∀ term meanings, ∀ entry ∈ definitionEntry term meanings, allBlank entry = false := by
    intro term meanings entry hmem
    rw [definitionEntry] at hmem
    cases meanings with
    | nil => cases hmem
    | cons m meanings =>
      rw [if_neg (by simp), List.mem_singleton] at hmem
      have hmark : allBlank (':' :: ' ' :: m) = false :=
        not_allBlank_of_mem (List.mem_cons_self ..) (by decide)
      rw [hmem, ← Bool.not_eq_true, allBlank_unlines, List.map_cons, List.forall_mem_cons,
        List.forall_mem_cons, hmark]
      exact fun h => Bool.false_ne_true h.2.1
  induction ds generalizing term meanings with
  | nil => exact hentry term meanings
  | cons d ds ih =>
    cases d with
    | term t => exact List.forall_mem_append.mpr ⟨hentry term meanings, ih t []⟩
    | meaning m => exact ih term (meanings ++ [m])

theorem allBlank_definitionList {ds : List Definition} (h : startsWithMeaning ds = false) :
    allBlank (definitionList ds) = true ↔ entryLines ds = [] := by
  cases ds with
  | nil => exact iff_of_true rfl rfl
  | cons d ds =>
    cases d with
    | term t =>
      have hshown := not_allBlank_definitionEntries t [] ds
      have hnil : definitionEntries t [] ds = [] ↔ entryLines ds = [] :=
        (definitionEntries_eq_nil_iff t [] ds).trans (and_iff_right rfl)
      rw [definitionList, allBlank_joinBlocks, entryLines_term_eq_nil_iff, ← hnil]
      generalize definitionEntries t [] ds = entries at hshown
      cases entries with
      | nil => exact iff_of_true (List.forall_mem_nil _) rfl
      | cons entry entries =>
        refine iff_of_false (fun hblank => ?_) (List.cons_ne_nil _ _)
        have hfirst := hblank entry (List.mem_cons_self ..)
        rw [hshown entry (List.mem_cons_self ..)] at hfirst
        cases hfirst
    | meaning m => cases h

end Markdown

/-! ## Silent blocks -/

namespace Render

/-- A definition list has a term with a meaning. -/
def hasEntry : List Node → Bool
  | [] => false
  | n :: ns => (n.tag == "dt".toList && meaningNext ns) || hasEntry ns

mutual

/-- The node shows nothing as a block. -/
def silent (scope : Scope) : Node → Bool
  | .element name attrs cs =>
    let place : Place := ⟨[], scope, .element name attrs cs⟩
    match place.node.role with
    | .table => !place.isRawTable && (rowPlaces place).isEmpty
    | .thematicBreak | .preformatted => false
    -- the marks of a heading stand even before a no-break space
    | .heading _ => (Inline.collapse (name :: scope) cs).isEmpty
    | .quote =>
      if cs.any Node.isBlock then silentAmong (name :: scope) [] cs
      else allBlank (Inline.collapse (name :: scope) cs)
    | .list ordered => (firstNumber ordered place.node).isOk && (itemsAmong cs).isEmpty
    | .definitions => !hasEntry cs
    | .figure =>
      (Figure.parts? place).isNone && silentAmong (name :: scope) [] cs &&
        allBlank (Inline.collapse (name :: scope) cs)
    | .container =>
      silentAmong (name :: scope) [] cs && allBlank (Inline.collapse (name :: scope) cs)
    | _ => allBlank (Inline.collapse (name :: scope) cs)
  | _ => true

/-- Siblings show nothing after the inline nodes `pending`, neither their blocks nor their runs. -/
def silentAmong (scope : Scope) (pending : List Node) : List Node → Bool
  | [] => allBlank (Inline.collapse scope pending)
  | n :: ns =>
    if n.isBlock then
      allBlank (Inline.collapse scope pending) && silent scope n && silentAmong scope [] ns
    else silentAmong scope (if isShown n then pending ++ [n] else pending) ns

end

/-- The text that is rendered is blank. -/
def IsBlank (r : Traced Text) : Prop := ∃ t, r.outcome = .ok t ∧ allBlank t = true

/-- All parts that are rendered are blank. -/
def AreBlank (r : Traced (List Text)) : Prop :=
  ∃ parts, r.outcome = .ok parts ∧ ∀ t ∈ parts, allBlank t = true

variable {opts : Options} {scope : Scope}

theorem isBlank_of_ok {r : Traced Text} {t : Text} (h : r.outcome = .ok t) :
    IsBlank r ↔ allBlank t = true := by
  rw [IsBlank, h]
  simp only [Except.ok.injEq, exists_eq_left']

theorem isBlank_render (scope : Scope) (ns : List Node) :
    IsBlank (Inline.render scope ns) ↔ allBlank (Inline.collapse scope ns) = true :=
  isBlank_of_ok rfl

theorem not_isBlank {r : Traced Text} (h : ∀ t, r.outcome = .ok t → allBlank t = false) :
    ¬IsBlank r := by
  rintro ⟨t, ht, hblank⟩
  rw [h t ht] at hblank
  cases hblank

/-- A text made by `f` is blank if what it is made of has the property `P`. -/
theorem isBlank_bind_pure {α : Type} {r : Traced α} {f : α → Text} {P : α → Prop}
    (hf : ∀ a, r.outcome = .ok a → (allBlank (f a) = true ↔ P a)) :
    IsBlank (r.bind (Traced.pure ∘ f)) ↔ ∃ a, r.outcome = .ok a ∧ P a := by
  simp only [IsBlank, bind_outcome_eq_ok_iff]
  constructor
  · rintro ⟨t, ⟨a, ha, ht⟩, hblank⟩
    obtain rfl := Except.ok.inj ht
    exact ⟨a, ha, (hf a ha).mp hblank⟩
  · rintro ⟨a, ha, hp⟩
    exact ⟨f a, ⟨a, ha, rfl⟩, (hf a ha).mpr hp⟩

theorem areBlank_run (scope : Scope) (ns : List Node) :
    AreBlank (run scope ns) ↔ allBlank (Inline.collapse scope ns) = true := by
  have hrun : (run scope ns).outcome =
      .ok (if (Inline.collapse scope ns).isEmpty then [] else [Inline.collapse scope ns]) := rfl
  rw [AreBlank, hrun]
  simp only [Except.ok.injEq, exists_eq_left']
  split
  · rename_i hempty
    rw [List.isEmpty_iff.mp hempty]
    exact iff_of_true (List.forall_mem_nil _) rfl
  · exact List.forall_mem_singleton

theorem forall_mem_part (t : Text) :
    (∀ u ∈ part t, allBlank u = true) ↔ allBlank t = true := by
  rw [part]
  split
  · rename_i hblank
    exact iff_of_true (List.forall_mem_nil _) hblank
  · exact List.forall_mem_singleton

/-! ## The recursion -/

/-- What is known of a node once all nodes below it are understood. -/
def Told (opts : Options) (n : Node) : Prop :=
  n.isBlock = true → ∀ scope, IsBlank (block opts scope n) ↔ silent scope n = true

theorem blocks_areBlank_iff {ns : List Node} (h : ∀ n ∈ ns, n.Throughout (Told opts))
    (scope : Scope) (pending : List Node) :
    AreBlank (blocks opts scope keepAll pending ns) ↔ silentAmong scope pending ns = true := by
  -- a run is judged as a whole when it ends, so what is pending of it is carried along
  induction ns generalizing pending with
  | nil =>
    rw [blocks, silentAmong]
    exact areBlank_run scope pending
  | cons n ns ih =>
    rw [List.forall_mem_cons] at h
    rw [blocks, silentAmong, keepAll, Bool.not_true, if_neg Bool.false_ne_true]
    by_cases hb : n.isBlock = true
    · rw [if_pos hb, if_pos hb, Bool.and_eq_true, Bool.and_eq_true, ← ih h.2 [],
        ← h.1.here hb scope, ← areBlank_run]
      simp only [AreBlank, bind_outcome_eq_ok_iff]
      constructor
      · rintro ⟨parts, ⟨before, hbefore, t, ht, rest, hrest, hparts⟩, hblank⟩
        obtain rfl := Except.ok.inj hparts
        rw [List.forall_mem_append, List.forall_mem_append, forall_mem_part] at hblank
        exact ⟨⟨⟨before, hbefore, hblank.1.1⟩, ⟨t, ht, hblank.1.2⟩⟩, ⟨rest, hrest, hblank.2⟩⟩
      · rintro ⟨⟨⟨before, hbefore, hblank⟩, ⟨t, ht, hblank'⟩⟩, ⟨rest, hrest, hblank''⟩⟩
        refine ⟨_, ⟨before, hbefore, t, ht, rest, hrest, rfl⟩, ?_⟩
        rw [List.forall_mem_append, List.forall_mem_append, forall_mem_part]
        exact ⟨⟨hblank, hblank'⟩, hblank''⟩
    · rw [if_neg hb, if_neg hb]
      by_cases hs : isShown n = true
      · rw [if_pos hs, if_pos hs]
        exact ih h.2 (pending ++ [n])
      · rw [if_neg hs, if_neg hs]
        exact ih h.2 pending

/-! ## Kinds of blocks -/

theorem items_of_no_item {ns : List Node} (h : itemsAmong ns = []) (scope : Scope) (depth : Nat)
    (due : Option Int) : items opts scope depth due ns = Traced.pure [] := by
  induction ns with
  | nil => rw [items]
  | cons n ns ih =>
    rw [itemsAmong, List.filter_eq_nil_iff, List.forall_mem_cons, beq_iff_eq] at h
    have hrest := ih (List.filter_eq_nil_iff.mpr h.2)
    cases n with
    | element name attrs cs =>
      have hli : Text.lower name ≠ "li".toList := h.1
      simp only [items, if_neg hli]
      exact hrest
    | text t => exact hrest
    | comment t => exact hrest
    | directive k t => exact hrest

/-- Every item has a marker. -/
theorem not_blank_of_mem_items {depth : Nat} {due : Option Int} {ns : List Node} {ls : List Text}
    (h : (items opts scope depth due ns).outcome = .ok ls) : ∀ l ∈ ls, allBlank l = false := by
  have hstarts := (items_numbered h).2
  intro l hl
  obtain ⟨number, -, line, below, hlines, hlabel⟩ := Table.exists_of_mem_right hstarts hl
  obtain ⟨s, c, hmarker, hc⟩ := exists_label_eq depth number
  rw [hmarker] at hlabel
  have hmem : c ∈ line := hlabel.subset (List.mem_append_right _ (List.mem_singleton_self c))
  exact not_allBlank_of_mem (Markdown.mem_of_mem_lines (hlines ▸ List.mem_cons_self ..) hmem) hc

theorem list_isBlank_iff {depth : Nat} {name : Text} {attrs : Attributes} {cs : List Node}
    {ordered : Bool} :
    IsBlank ((ofSized (firstNumber ordered (.element name attrs cs))).bind fun first =>
      (items opts (name :: scope) depth first cs).bind (Traced.pure ∘ Text.unlines)) ↔
      ((firstNumber ordered (.element name attrs cs)).isOk && (itemsAmong cs).isEmpty) = true := by
  rw [Bool.and_eq_true, List.isEmpty_iff]
  constructor
  · rintro ⟨t, ht, hblank⟩
    simp only [bind_outcome_eq_ok_iff, ofSized_outcome_eq_ok_iff] at ht
    obtain ⟨first, hfirst, ls, hls, ht⟩ := ht
    obtain rfl := Except.ok.inj ht
    refine ⟨by rw [hfirst]; rfl, ?_⟩
    have hnone : ls = [] := by
      refine List.eq_nil_iff_forall_not_mem.mpr fun l hl => ?_
      have hshown := (allBlank_unlines ls).mp hblank l hl
      rw [not_blank_of_mem_items hls l hl] at hshown
      cases hshown
    have htexts := (items_numbered hls).1
    rw [hnone, List.forall₂_nil_right_iff] at htexts
    exact htexts
  · rintro ⟨hfirst, hitems⟩
    cases hnumber : firstNumber ordered (.element name attrs cs) with
    | error size =>
      rw [hnumber] at hfirst
      cases hfirst
    | ok first =>
      refine ⟨[], ?_, rfl⟩
      rw [bind_outcome_of_ok (ofSized_outcome_eq_ok_iff.mpr rfl), items_of_no_item hitems]
      rfl

theorem entryLines_definitions {scope : Scope} {started : Bool} {ns : List Node}
    {ds : List Markdown.Definition}
    (h : (Traced.sequence (definitions scope started ns)).outcome = .ok ds) :
    Markdown.entryLines ds = [] ↔ (started && meaningNext ns || hasEntry ns) = false := by
  induction ns generalizing started ds with
  | nil =>
    obtain rfl := Except.ok.inj h
    rw [meaningNext, hasEntry, Bool.and_false]
    exact iff_of_true rfl rfl
  | cons n ns ih =>
    rw [meaningNext, hasEntry]
    rcases definitions_cons h with
      ⟨hdt, t, rest, -, hrest, rfl⟩ | ⟨hdd, rfl, t, rest, -, -, rfl⟩ | ⟨hdt, hdd, hrest⟩
    · rw [Markdown.entryLines_term_eq_nil_iff, ih hrest, hdt]
      simp
    · rw [Markdown.entryLines, hdd]
      simp
    · rw [ih hrest, bne_iff_ne.mpr hdt, beq_eq_false_iff_ne.mpr hdt, Bool.true_and,
        Bool.false_and, Bool.false_or]
      cases started with
      | false => rfl
      | true =>
        have hdd' : n.tag ≠ "dd".toList := fun h => Bool.noConfusion (hdd h)
        rw [beq_eq_false_iff_ne.mpr hdd', Bool.false_or]

theorem definitions_isBlank_iff (scope : Scope) (ns : List Node) :
    IsBlank ((Traced.sequence (definitions scope false ns)).bind
      (Traced.pure ∘ Markdown.definitionList)) ↔ (!hasEntry ns) = true := by
  obtain ⟨ds, hds⟩ := succeeds_definitions scope false ns
  have hstart : Markdown.startsWithMeaning ds = false := startsWithMeaning_definitions hds
  have hlist : ((Traced.sequence (definitions scope false ns)).bind
      (Traced.pure ∘ Markdown.definitionList)).outcome = .ok (Markdown.definitionList ds) :=
    bind_outcome_of_ok hds _
  rw [isBlank_of_ok hlist, Markdown.allBlank_definitionList hstart, entryLines_definitions hds,
    Bool.false_and, Bool.false_or, Bool.not_eq_true']

theorem codeFigure_not_isBlank (opts : Options) (figure : Place) (parts : Figure.Parts)
    (before after : Traced (List Text)) : ¬IsBlank (codeFigure opts figure parts before after) := by
  refine not_isBlank fun t ht => ?_
  simp only [codeFigure, bind_outcome_eq_ok_iff] at ht
  obtain ⟨caption, -, language, -, -, -, -, -, above, -, below, -, ht⟩ := ht
  obtain rfl := Except.ok.inj ht
  rw [← Bool.not_eq_true, allBlank_joinBlocks]
  intro hblank
  have hfence := hblank _ <|
    List.mem_append_left _ (List.mem_append_right _ (List.mem_singleton_self _))
  rw [Markdown.not_allBlank_fencedBlock] at hfence
  cases hfence

theorem fencedCode_not_isBlank (opts : Options) (pre : Place) : ¬IsBlank (fencedCode opts pre) := by
  refine not_isBlank fun t ht => ?_
  simp only [fencedCode, bind_outcome_eq_ok_iff] at ht
  obtain ⟨-, -, info, -, ht⟩ := ht
  obtain rfl := Except.ok.inj ht
  exact Markdown.not_allBlank_fencedBlock _ _ _

theorem table_isBlank_iff {n : Node} (hrole : n.role = .table) (scope : Scope) :
    IsBlank (block opts scope n) ↔
      (!(⟨[], scope, n⟩ : Place).isRawTable && (rowPlaces ⟨[], scope, n⟩).isEmpty) = true := by
  have hraw : (⟨[], scope, n⟩ : Place).isRawTable =
      ((⟨[], scope, n⟩ : Place).findTag? "table".toList).isSome := by
    rw [Place.isRawTable, hrole]
    rfl
  have hempty : (rowPlaces ⟨[], scope, n⟩).isEmpty = (tableRows opts scope n).isEmpty := by
    rw [tableRows, rowsAmong_eq_rowPlaces, List.isEmpty_map]
  rw [hraw, hempty]
  cases hnested : (⟨[], scope, n⟩ : Place).findTag? "table".toList with
  | some inner =>
    refine iff_of_false (not_isBlank fun t ht => ?_) Bool.false_ne_true
    cases n with
    | element name attrs cs =>
      simp only [block, hrole, hnested, Option.isSome_some, if_true, bind_outcome_eq_ok_iff] at ht
      obtain ⟨-, -, ht⟩ := ht
      obtain rfl := Except.ok.inj ht
      have hopen : '<' ∈ Node.openingMarkup name (.element name attrs cs) := List.mem_cons_self ..
      have hmarkup := Node.openingMarkup_infix_markup false name attrs cs
      exact not_allBlank_of_mem (hmarkup.subset hopen) (by decide)
    | text t => cases hrole
    | comment t => cases hrole
    | directive k t => cases hrole
  | none =>
    by_cases hrows : tableRows opts scope n = []
    · rw [block_table hrole hnested, hrows]
      exact iff_of_true ⟨[], rfl, rfl⟩ rfl
    · refine iff_of_false (not_isBlank fun t ht => ?_) ?_
      · obtain ⟨title, table, -, rfl, hlines⟩ := block_table_eq hrole hnested hrows ht
        have hline : Table.dashLine (Table.arrangement (tableRows opts scope n)).sheet.dashes ∈
            lines table := by
          rw [hlines]
          exact List.mem_append_right _ (List.mem_cons_self ..)
        have htable : allBlank table = false :=
          not_allBlank_of_mem (Markdown.mem_of_mem_lines hline (List.mem_cons_self ..)) (by decide)
        rw [Table.captioned]
        split
        · exact htable
        · refine not_allBlank_of_infix htable (infix_joinBlocks ?_)
          exact List.mem_cons_of_mem _ (List.mem_singleton_self table)
      · rw [List.isEmpty_eq_false_iff.mpr hrows]
        exact Bool.false_ne_true

/-- Blocks that are all blank give way to a line, which may be blank as well. -/
theorem inside_isBlank_iff {ns : List Node} (h : ∀ n ∈ ns, n.Throughout (Told opts))
    (scope : Scope) :
    IsBlank ((blocks opts scope keepAll [] ns).bind fun parts =>
      if allBlank (joinBlocks parts) then Inline.render scope ns
      else Traced.pure (joinBlocks parts)) ↔
      (silentAmong scope [] ns && allBlank (Inline.collapse scope ns)) = true := by
  rw [Bool.and_eq_true, ← blocks_areBlank_iff h]
  constructor
  · rintro ⟨t, ht, hblank⟩
    rw [bind_outcome_eq_ok_iff] at ht
    obtain ⟨parts, hparts, ht⟩ := ht
    split at ht
    · rename_i hjoined
      obtain rfl := Except.ok.inj ht
      exact ⟨⟨parts, hparts, (allBlank_joinBlocks parts).mp hjoined⟩, hblank⟩
    · rename_i hjoined
      obtain rfl := Except.ok.inj ht
      exact absurd hblank hjoined
  · rintro ⟨⟨parts, hparts, hblank⟩, hline⟩
    refine ⟨Inline.collapse scope ns, ?_, hline⟩
    rw [bind_outcome_of_ok hparts, if_pos ((allBlank_joinBlocks parts).mpr hblank)]
    rfl

theorem told (n : Node) : n.Throughout (Told opts) := by
  refine Node.throughout (fun n h => ?_) n
  intro hblock scope
  cases n with
  | text t => cases hblock
  | comment t => cases hblock
  | directive k t => cases hblock
  | element name attrs cs =>
    cases hrole : (Node.element name attrs cs).role with
    | heading level =>
      have hlevel : 0 < level := by
        have hzero : ∀ e ∈ Role.byTag, e.2 ≠ Role.heading 0 := by decide
        refine Nat.pos_of_ne_zero fun hlevel => ?_
        rw [hlevel] at hrole
        exact hzero _ (Node.mem_byTag (by rw [hrole]; decide)) hrole
      simp only [block, silent, hrole]
      rw [isBlank_of_ok rfl, List.isEmpty_iff]
      exact Markdown.allBlank_heading hlevel _
    | paragraph =>
      simp only [block, silent, hrole]
      exact isBlank_render _ cs
    | thematicBreak =>
      simp only [block, silent, hrole]
      exact iff_of_false (not_isBlank fun t ht => by rw [← Except.ok.inj ht]; rfl) Bool.false_ne_true
    | quote =>
      simp only [block, silent, hrole]
      split
      · rw [isBlank_bind_pure (P := fun parts => ∀ t ∈ parts, allBlank t = true)]
        · exact blocks_areBlank_iff h _ []
        · intro parts _
          rw [Function.comp_apply, Markdown.allBlank_quote, allBlank_joinBlocks]
      · rw [isBlank_of_ok rfl, Markdown.allBlank_quote]
    | preformatted =>
      simp only [block, silent, hrole]
      exact iff_of_false (fencedCode_not_isBlank opts _) Bool.false_ne_true
    | list ordered =>
      simp only [block, silent, hrole]
      exact list_isBlank_iff
    | definitions =>
      simp only [block, silent, hrole]
      exact definitions_isBlank_iff _ cs
    | table =>
      rw [table_isBlank_iff hrole]
      simp only [silent, hrole]
    | figure =>
      simp only [block, silent, hrole]
      cases Figure.parts? ⟨[], scope, .element name attrs cs⟩ with
      | some parts => exact iff_of_false (codeFigure_not_isBlank opts _ parts _ _) Bool.false_ne_true
      | none => exact inside_isBlank_iff h _
    | container =>
      simp only [block, silent, hrole]
      exact inside_isBlank_iff h _
    | _ =>
      rw [Node.isBlock, hrole] at hblock
      cases hblock

/-- Siblings come to nothing exactly if they are silent. -/
theorem siblings_isBlank_iff (opts : Options) (scope : Scope) (ns : List Node) :
    IsBlank (siblings opts scope ns) ↔ silentAmong scope [] ns = true := by
  rw [siblings, isBlank_bind_pure fun parts _ => allBlank_joinBlocks parts]
  exact blocks_areBlank_iff (fun n _ => told n) scope []

/-- Which containers give way to a line is told from the tree, whatever the options. -/
theorem showsNothing_iff (opts : Options) (scope : Scope) (ns : List Node) :
    showsNothing opts scope ns = true ↔ silentAmong scope [] ns = true := by
  rw [← siblings_isBlank_iff opts, showsNothing, IsBlank]
  cases (siblings opts scope ns).outcome with
  | error e =>
    refine iff_of_false Bool.false_ne_true ?_
    rintro ⟨t, ht, -⟩
    cases ht
  | ok t => simp only [Except.ok.injEq, exists_eq_left']

end Render

end Hypermark
