import Hypermark.Proofs.References

/-!
# Angle brackets open destinations

No text of a document opens a tag: it is escaped, and code aside all else that is written comes from
links and images.  Their destinations, labels and titles are not escaped, though.  So the opening
angle brackets of a document are those that open a destination exactly if no link or image that is
written takes one over.

* `bears_blocks`, `bears_items`, `bears_rows`: what is kept down the tree.
* `bears_convertTree`: a document bears the links and images that are written in it.
* `angles_open_destinations_iff`: when all angle brackets of a document open destinations.
-/

namespace Hypermark

open Traced Text

namespace Render

open Node
open Inline (Clean)

variable {opts : Options}

/-- What is known of a node once all nodes below it are understood: as a block it bears the links and
images that are written in it, and so do its children as the items of a list, and the cells of the
rows at or below it. -/
structure Accounted (opts : Options) (n : Node) : Prop where
  block : Codeless n.tags → n.isBlock = true → ∀ scope,
    (∀ p ∈ reached scope n, p.isRawTable = false) → ∀ t,
      (block opts scope n).outcome = .ok t → Bears (references opts scope n) t
  items : Codeless n.tags → ∀ scope depth due,
    (∀ p ∈ reachedInItems scope n.children, p.isRawTable = false) → ∀ ls,
      (items opts scope depth due n.children).outcome = .ok ls →
        BearsAll (referencesInItems opts scope n.children) ls
  rows : Codeless n.tags → ∀ scope, (∀ p ∈ reachedInRow scope n, p.isRawTable = false) →
    (∀ row ∈ rowsOf opts scope n, ∀ c ∈ row.cells, c.content.Succeeds) →
      BearsAll (referencesInRow opts scope n)
        ((rowsOf opts scope n).flatMap fun row => row.cells.map Cell.value)

/-! ## Runs and definition lists -/

theorem bears_run {scope : Scope} {ns : List Node} (hcode : Codeless (tagsAll ns)) {parts : List Text}
    (h : (run scope ns).outcome = .ok parts) : BearsAll (Inline.referencesAmong ns) parts := by
  rw [run, bind_outcome_eq_ok_iff] at h
  obtain ⟨t, ht, h⟩ := h
  obtain rfl := Except.ok.inj h
  have hbears := bears_render hcode ht
  split
  · rename_i hempty
    rw [List.isEmpty_iff.mp hempty] at hbears
    exact ⟨hbears.count, fun _ => List.forall_mem_nil _⟩
  · exact .singleton hbears

theorem bears_runSegment {scope : Scope} {ns : List Node} (hcode : Codeless (tagsAll ns))
    {texts : List Text} (h : Markdown.Rendered (runSegment scope ns) texts) :
    BearsAll (Inline.referencesAmong ns) texts := by
  unfold runSegment at h
  split at h
  · rename_i hempty
    cases h
    rw [List.isEmpty_iff.mp hempty]
    exact .nil
  · cases h with
    | cons ht h =>
      cases h
      exact .singleton (bears_render hcode ht)

/-- The lines of a definition list bear what is written in them, before the first term nothing. -/
theorem bears_definitions {scope : Scope} {started : Bool} {ns : List Node}
    (hcode : Codeless (tagsAll ns)) {ds : List Markdown.Definition}
    (h : (Traced.sequence (definitions scope started ns)).outcome = .ok ds) :
    BearsAll (referencesInDefinitions started ns) (Markdown.entryLines ds) := by
  induction ns generalizing started ds with
  | nil =>
    obtain rfl := Except.ok.inj h
    exact .nil
  | cons n ns ih =>
    have hns := hcode.mono (List.subset_append_right n.tags (tagsAll ns))
    have hcs := (hcode.mono (List.subset_append_left ..)).mono (tagsAll_children_subset n)
    rcases definitions_cons h with
      ⟨hdt, t, rest, ht, hrest, rfl⟩ | ⟨hdd, rfl, t, rest, ht, hrest, rfl⟩ | ⟨hdt, hdd, hrest⟩
    · have hterm : BearsAll (if meaningNext ns then Inline.referencesAmong n.children else [])
          (if Markdown.startsWithMeaning rest then [t] else []) := by
        rw [startsWithMeaning_definitions hrest, Bool.true_and]
        split
        · exact .singleton (bears_render hcs ht)
        · exact .nil
      rw [referencesInDefinitions, if_pos hdt]
      exact hterm.append (ih hns hrest)
    · have hdt : n.tag ≠ "dt".toList := by rw [hdd]; decide
      rw [referencesInDefinitions, if_neg hdt, if_pos (by rw [hdd]; rfl)]
      exact (BearsAll.singleton (bears_render hcs ht)).append (ih hns hrest)
    · have hmeaning : ¬(n.tag = "dd".toList && started) = true := by
        simpa only [Bool.and_eq_true, decide_eq_true_eq, not_and, Bool.not_eq_true] using hdd
      rw [referencesInDefinitions, if_neg hdt, if_neg hmeaning]
      exact ih hns hrest

/-! ## The recursion -/

section Siblings

variable {ns : List Node} (h : ∀ n ∈ ns, n.Throughout (Accounted opts))
include h

theorem bears_blocks {scope : Scope} (pending : List Node) {parts : List Text}
    (hcode : Codeless (tagsAll (pending ++ ns)))
    (hraw : ∀ p ∈ reachedAmong scope keepAll ns, p.isRawTable = false)
    (hok : (blocks opts scope keepAll pending ns).outcome = .ok parts) :
    BearsAll (Inline.referencesAmong pending ++ referencesAmong opts scope ns) parts := by
  induction ns generalizing pending parts with
  | nil =>
    rw [List.append_nil] at hcode
    rw [blocks] at hok
    rw [referencesAmong, List.append_nil]
    exact bears_run hcode hok
  | cons n ns ih =>
    rw [List.forall_mem_cons] at h
    rw [reachedAmong, List.forall_mem_append] at hraw
    rw [blocks, keepAll, Bool.not_true, if_neg Bool.false_ne_true] at hok
    rw [referencesAmong]
    by_cases hb : n.isBlock = true
    · rw [if_pos hb] at hok ⊢
      rw [keepAll, Bool.true_and, if_pos hb] at hraw
      simp only [bind_outcome_eq_ok_iff] at hok
      obtain ⟨before, hbefore, t, ht, rest, hrest, hok⟩ := hok
      obtain rfl := Except.ok.inj hok
      rw [tagsAll_append, tagsAll] at hcode
      have hpending := bears_run (hcode.mono (List.subset_append_left ..)) hbefore
      have hbelow := hcode.mono (List.subset_append_right ..)
      have hn := h.1.here.block (hbelow.mono (List.subset_append_left ..)) hb scope hraw.1 t ht
      have hns := ih h.2 [] (hbelow.mono (List.subset_append_right ..)) hraw.2 hrest
      rw [← List.append_assoc]
      exact (hpending.append hn.part).append hns
    · rw [if_neg hb] at hok ⊢
      have hshown : ∀ m : Node, isShown m = false → Inline.references m = [] := by
        intro m hm
        cases m with
        | element name attrs cs =>
          have hrole : (Node.element name attrs cs).role = .ignored := by
            simpa [isShown, Node.isText, Node.isElement] using hm
          simp only [Inline.references, hrole]
        | text t => rfl
        | comment t => rfl
        | directive k t => rfl
      by_cases hs : isShown n = true
      · rw [if_pos hs] at hok
        have hns := ih h.2 (pending ++ [n]) (by rwa [List.append_assoc]) hraw.2 hok
        rw [Inline.referencesAmong_append, List.append_assoc] at hns
        simpa only [Inline.referencesAmong, List.append_nil] using hns
      · rw [if_neg hs] at hok
        rw [tagsAll_append, tagsAll] at hcode
        have hsub : tagsAll (pending ++ ns) ⊆ tagsAll pending ++ (n.tags ++ tagsAll ns) := by
          rw [tagsAll_append]
          exact List.append_subset.mpr ⟨List.subset_append_left ..,
            List.subset_append_of_subset_right _ (List.subset_append_right ..)⟩
        rw [hshown n (Bool.eq_false_iff.mpr hs), List.nil_append]
        exact ih h.2 pending (hcode.mono hsub) hraw.2 hok

theorem bears_segments {scope : Scope} {depth : Nat} (pending : List Node) {texts : List Text}
    (hcode : Codeless (tagsAll (pending ++ ns)))
    (hraw : ∀ p ∈ reachedAmong scope keepAll ns, p.isRawTable = false)
    (hok : Markdown.Rendered (segments opts scope depth pending ns) texts) :
    BearsAll (Inline.referencesAmong pending ++ referencesAmong opts scope ns) texts := by
  induction ns generalizing pending texts with
  | nil =>
    rw [List.append_nil] at hcode
    rw [segments] at hok
    rw [referencesAmong, List.append_nil]
    exact bears_runSegment hcode hok
  | cons n ns ih =>
    rw [List.forall_mem_cons] at h
    rw [reachedAmong, List.forall_mem_append] at hraw
    rw [referencesAmong]
    by_cases hb : n.isBlock = true
    · rw [keepAll, Bool.true_and, if_pos hb] at hraw
      rw [if_pos hb]
      rw [tagsAll_append, tagsAll] at hcode
      have hbelow := hcode.mono (List.subset_append_right ..)
      have hn := hbelow.mono (List.subset_append_left ..)
      -- The run before a block or list, the block or list itself, and the segments after it.
      have hparts : ∀ s, Markdown.Rendered
          (runSegment scope pending ++ s :: segments opts scope depth [] ns) texts →
            (∀ t, s.rendering.outcome = .ok t → Bears (references opts scope n) t) →
              BearsAll (Inline.referencesAmong pending ++
                (references opts scope n ++ referencesAmong opts scope ns)) texts := by
        intro s hs hbears
        obtain ⟨before, after, hbefore, hafter, rfl⟩ := forall₂_append_left hs
        cases hafter with
        | cons ht hrest =>
          have hpending := bears_runSegment (hcode.mono (List.subset_append_left ..)) hbefore
          have hns := ih h.2 [] (hbelow.mono (List.subset_append_right ..)) hraw.2 hrest
          exact hpending.append ((BearsAll.singleton (hbears _ ht)).append hns)
      by_cases hl : ∃ ordered, n.role = .list ordered
      · obtain ⟨ordered, hrole⟩ := hl
        cases n with
        | element name attrs cs =>
          rw [segments_list hrole] at hok
          simp only [reached, hrole, List.forall_mem_cons] at hraw
          refine hparts _ hok fun t ht => ?_
          simp only [bind_outcome_eq_ok_iff] at ht
          obtain ⟨first, _, ls, hls, ht⟩ := ht
          obtain rfl := Except.ok.inj ht
          simp only [references, hrole]
          exact (h.1.here.items hn (name :: scope) (depth + 1) first hraw.1.2 ls hls).unlines
        | text t => cases hrole
        | comment t => cases hrole
        | directive k t => cases hrole
      · rw [segments_block hb (not_exists.mp hl)] at hok
        exact hparts _ hok (h.1.here.block hn hb scope hraw.1)
    · rw [segments_inline (Bool.eq_false_iff.mpr hb)] at hok
      have hns := ih h.2 (pending ++ [n]) (by rwa [List.append_assoc]) hraw.2 hok
      rw [Inline.referencesAmong_append, List.append_assoc] at hns
      rw [if_neg hb]
      simpa only [Inline.referencesAmong, List.append_nil] using hns

theorem bears_items (hcode : Codeless (tagsAll ns)) {scope : Scope} {depth : Nat} {due : Option Int}
    (hraw : ∀ p ∈ reachedInItems scope ns, p.isRawTable = false) {ls : List Text}
    (hok : (items opts scope depth due ns).outcome = .ok ls) :
    BearsAll (referencesInItems opts scope ns) ls := by
  induction ns generalizing due ls with
  | nil =>
    rw [items] at hok
    obtain rfl := Except.ok.inj hok
    rw [referencesInItems]
    exact .nil
  | cons n ns ih =>
    rw [List.forall_mem_cons] at h
    rw [reachedInItems_cons, List.forall_mem_append] at hraw
    have hns := hcode.mono (List.subset_append_right n.tags (tagsAll ns))
    have hcs := (hcode.mono (List.subset_append_left n.tags (tagsAll ns))).mono
      (tagsAll_children_subset n)
    rw [referencesInItems_cons]
    rcases items_cons hok with
      ⟨hli, number, marker, item, rest, -, hmarker, hitem, hrest, rfl⟩ | ⟨hli, hrest⟩
    · rw [if_pos hli] at hraw ⊢
      have hitems := Markdown.bears_renderItem (ink_itemMarker ink_isLess.toInk hmarker) hitem
        fun texts htexts => bears_segments (fun c hc => h.1.child hc) [] hcs hraw.1 htexts
      exact (BearsAll.singleton hitems).append (ih h.2 hns hraw.2 hrest)
    · rw [if_neg hli]
      exact ih h.2 hns hraw.2 hrest

/-! ## Containers and cells -/

/-- Blocks that show nothing give way to a line; either way the brackets are those of what is
written. -/
theorem bears_inside {scope : Scope} (hcode : Codeless (tagsAll ns))
    (hraw : ∀ p ∈ reachedAmong scope keepAll ns, p.isRawTable = false) {f : Text → Text}
    (hf : ∀ refs t, Bears refs t → Bears refs (f t)) {t : Text}
    (hok : ((blocks opts scope keepAll [] ns).bind fun parts =>
      if Text.allBlank (Text.joinBlocks parts) then Inline.render scope ns
      else Traced.pure (f (Text.joinBlocks parts))).outcome = .ok t) :
    Bears (if showsNothing opts scope ns then Inline.referencesAmong ns
      else referencesAmong opts scope ns) t := by
  rw [bind_outcome_eq_ok_iff] at hok
  obtain ⟨parts, hparts, hok⟩ := hok
  rw [showsNothing_of_blocks hparts]
  split at hok
  · rename_i hblank
    rw [if_pos hblank]
    exact bears_render hcode hok
  · rename_i hblank
    obtain rfl := Except.ok.inj hok
    rw [if_neg hblank]
    exact hf _ _ (bears_blocks h [] hcode hraw hparts).joinBlocks

theorem bears_cells {scope : Scope} (hcode : Codeless (tagsAll ns))
    (hraw : ∀ p ∈ reachedInCells scope ns, p.isRawTable = false)
    (hok : ∀ c ∈ cellsAmong opts scope ns, c.content.Succeeds) :
    BearsAll (referencesInCells opts scope ns) ((cellsAmong opts scope ns).map Cell.value) := by
  induction ns with
  | nil =>
    rw [cellsAmong, referencesInCells]
    exact .nil
  | cons n ns ih =>
    rw [List.forall_mem_cons] at h
    have hns := hcode.mono (List.subset_append_right n.tags (tagsAll ns))
    cases n with
    | element name attrs cs =>
      have hcs : Codeless (tagsAll cs) :=
        (hcode.mono (List.subset_append_left ..)).mono (List.subset_cons_self ..)
      rw [reachedInCells, List.forall_mem_append] at hraw
      rw [cellsAmong] at hok ⊢
      rw [referencesInCells]
      by_cases hc : isCell (.element name attrs cs) = true
      · simp only [if_pos hc] at hraw hok ⊢
        rw [List.forall_mem_cons] at hok
        obtain ⟨v, hv⟩ := hok.1
        have hcell := bears_inside (fun c hc => h.1.child hc) hcs hraw.1
          (fun _ _ hbears => hbears.layout (ink_isLess.gauge.trim _) AnglesOpen.trim) hv
        rw [List.map_cons, Table.value_of_ok hv]
        exact (BearsAll.singleton hcell).append (ih h.2 hns hraw.2 hok.2)
      · simp only [if_neg hc, List.nil_append] at hraw hok ⊢
        exact ih h.2 hns hraw.2 hok
    | text t =>
      simp only [cellsAmong, reachedInCells, List.nil_append] at hok hraw
      simp only [cellsAmong, referencesInCells, List.nil_append]
      exact ih h.2 hns hraw hok
    | comment t =>
      simp only [cellsAmong, reachedInCells, List.nil_append] at hok hraw
      simp only [cellsAmong, referencesInCells, List.nil_append]
      exact ih h.2 hns hraw hok
    | directive k t =>
      simp only [cellsAmong, reachedInCells, List.nil_append] at hok hraw
      simp only [cellsAmong, referencesInCells, List.nil_append]
      exact ih h.2 hns hraw hok

/-! ## Tables -/

theorem bears_rows {scope : Scope} (hcode : Codeless (tagsAll ns))
    (hraw : ∀ p ∈ reachedInRows scope ns, p.isRawTable = false)
    (hok : ∀ row ∈ rowsAmong opts scope ns, ∀ c ∈ row.cells, c.content.Succeeds) :
    BearsAll (referencesInRows opts scope ns)
      ((rowsAmong opts scope ns).flatMap fun row => row.cells.map Cell.value) := by
  induction ns with
  | nil =>
    rw [rowsAmong, referencesInRows]
    exact .nil
  | cons n ns ih =>
    rw [List.forall_mem_cons] at h
    rw [reachedInRows, List.forall_mem_append] at hraw
    rw [rowsAmong, List.forall_mem_append] at hok
    rw [rowsAmong, referencesInRows, List.flatMap_append]
    exact (h.1.here.rows (hcode.mono (List.subset_append_left ..)) scope hraw.1 hok.1).append
      (ih h.2 (hcode.mono (List.subset_append_right ..)) hraw.2 hok.2)

end Siblings

theorem bears_caption {table : Place} (hcode : Codeless table.node.tags) {title : Text}
    (h : (caption table).outcome = .ok title) : Bears (referencesInCaption table) title := by
  rw [caption] at h
  rw [referencesInCaption]
  cases hc : table.findTag? "caption".toList with
  | none =>
    rw [hc] at h
    obtain rfl := Except.ok.inj h
    exact ⟨rfl, fun _ => anglesOpen_of_no_angle List.not_mem_nil⟩
  | some c =>
    simp only [hc, bind_outcome_eq_ok_iff] at h
    obtain ⟨t, ht, h⟩ := h
    obtain rfl := Except.ok.inj h
    have hbelow := (hcode.descendant (List.mem_of_find?_eq_some hc)).mono
      (tagsAll_children_subset c.node)
    exact (bears_render hbelow ht).layout (ink_isLess.gauge.trim t) AnglesOpen.trim

/-- A table bears what is written in its caption and its cells. -/
theorem bears_table {rows : List (Row Cell)} (hne : rows ≠ []) (hcells : ∀ row ∈ rows, row.cells ≠ [])
    {refs refs' : List Node} {title table : Text}
    (hlines : lines table = (Table.arrangement rows).sheet.lines) (htitle : Bears refs title)
    (hrows : BearsAll refs' (rows.flatMap fun row => row.cells.map Cell.value)) :
    Bears (refs ++ refs') (Table.captioned title table) := by
  have hcount : (ink isLess table).length =
      ((rows.flatMap fun row => row.cells.map Cell.value).flatMap (ink isLess)).length := by
    rw [← Table.sum_countP_eq, List.map_flatMap, List.flatMap_def, List.sum_flatten, List.map_map,
      ← Table.countP_eq, Table.countP_table ink_isLess hne hcells hlines]
    simp only [Function.comp_def, List.map_map]
  refine ⟨?_, fun hclean => ?_⟩
  · have hcaptioned : ink isLess (Table.captioned title table) = ink isLess title ++ ink isLess table := by
      rw [Table.captioned]
      split
      · rename_i hempty
        rw [ink_of_isEmpty hempty, List.nil_append]
      · rw [ink_isLess.gauge.joinBlocks, List.flatMap_cons, List.flatMap_singleton]
    rw [hcaptioned, List.length_append, htitle.count, hcount, hrows.count, Inline.takenAll_append]
  · have htitle' := htitle.opens (hclean.of_subset (List.subset_append_left ..))
    have hvalues := hrows.opens (hclean.of_subset (List.subset_append_right ..))
    refine AnglesOpen.captioned hne hlines htitle' fun row hrow c hc => ?_
    exact hvalues c.value (List.mem_flatMap.mpr ⟨row, hrow, List.mem_map_of_mem hc⟩)

/-! ## Blocks -/

theorem bears_tableBlock {name : Text} {attrs : Attributes} {cs : List Node}
    (h : ∀ c ∈ cs, c.Throughout (Accounted opts))
    (hrole : (Node.element name attrs cs).role = .table)
    (hcode : Codeless (Node.element name attrs cs).tags) {scope : Scope}
    (hraw : ∀ p ∈ reached scope (.element name attrs cs), p.isRawTable = false) {t : Text}
    (hok : (block opts scope (.element name attrs cs)).outcome = .ok t) :
    Bears (references opts scope (.element name attrs cs)) t := by
  have hcs : Codeless (tagsAll cs) := hcode.mono (List.subset_cons_self ..)
  have hnested : (⟨[], scope, .element name attrs cs⟩ : Place).findTag? "table".toList = none := by
    have hflat := hraw ⟨[], scope, .element name attrs cs⟩ <| by
      rw [reached]
      exact List.mem_cons_self ..
    rw [Place.isRawTable, hrole, Bool.and_eq_false_iff] at hflat
    exact Option.not_isSome_iff_eq_none.mp (Bool.eq_false_iff.mp (hflat.resolve_left (by decide)))
  simp only [reached, hrole, hnested, List.forall_mem_cons] at hraw
  by_cases hrows : tableRows opts scope (.element name attrs cs) = []
  · -- without rows the caption is left out as well
    rw [block_table hrole hnested, hrows] at hok
    obtain rfl := Except.ok.inj hok
    have hempty : rowsAmong opts (name :: scope) cs = [] := hrows
    simp only [references, hrole, hempty, List.isEmpty_nil, if_true]
    exact ⟨rfl, fun _ => anglesOpen_of_no_angle List.not_mem_nil⟩
  · obtain ⟨title, table, htitle, rfl, hlines⟩ := block_table_eq hrole hnested hrows hok
    have hcontents : ∀ row ∈ tableRows opts scope (.element name attrs cs), ∀ c ∈ row.cells,
        c.content.Succeeds := by
      rw [block_table hrole hnested] at hok
      exact ((render_succeeds_iff ⟨title, htitle⟩).mp ⟨_, hok⟩).1
    have hne : (rowsAmong opts (name :: scope) cs).isEmpty = false :=
      List.isEmpty_eq_false_iff.mpr hrows
    simp only [references, hrole, hne, Bool.false_eq_true, if_false]
    exact bears_table hrows (fun _ hrow => cells_ne_nil_of_mem_tableRows hrow) hlines
      (bears_caption hcode htitle) (bears_rows h hcs hraw.2 hcontents)

theorem bears_block {n : Node} (h : ∀ c ∈ n.children, c.Throughout (Accounted opts))
    (hcode : Codeless n.tags) (hblock : n.isBlock = true) {scope : Scope}
    (hraw : ∀ p ∈ reached scope n, p.isRawTable = false) {t : Text}
    (hok : (block opts scope n).outcome = .ok t) : Bears (references opts scope n) t := by
  cases n with
  | text t => cases hblock
  | comment t => cases hblock
  | directive k t => cases hblock
  | element name attrs cs =>
    have hcs : Codeless (tagsAll cs) := hcode.mono (List.subset_cons_self ..)
    cases hrole : (Node.element name attrs cs).role with
    | heading level =>
      simp only [block, hrole, bind_outcome_eq_ok_iff] at hok
      obtain ⟨line, hline, hok⟩ := hok
      obtain rfl := Except.ok.inj hok
      simp only [references, hrole]
      exact (bears_render hcs hline).layout (ink_isLess.ink_heading level line)
        (AnglesOpen.heading level)
    | paragraph =>
      simp only [block, hrole] at hok
      simp only [references, hrole]
      exact bears_render hcs hok
    | thematicBreak =>
      simp only [block, hrole] at hok
      obtain rfl := Except.ok.inj hok
      simp only [references, hrole]
      exact ⟨rfl, fun _ => anglesOpen_of_no_angle (by decide)⟩
    | quote =>
      have hquote : ∀ refs u, Bears refs u → Bears refs (Markdown.quote u) := fun refs u hbears =>
        hbears.layout (ink_isLess.ink_quote u) AnglesOpen.quote
      simp only [reached, hrole, List.forall_mem_cons] at hraw
      simp only [block, hrole] at hok
      simp only [references, hrole]
      split at hok
      · rw [bind_outcome_eq_ok_iff] at hok
        obtain ⟨parts, hparts, hok⟩ := hok
        obtain rfl := Except.ok.inj hok
        exact hquote _ _ (bears_blocks h [] hcs hraw.2 hparts).joinBlocks
      · rename_i hinline
        rw [bind_outcome_eq_ok_iff] at hok
        obtain ⟨line, hline, hok⟩ := hok
        obtain rfl := Except.ok.inj hok
        rw [referencesAmong_of_inline opts _ (Bool.eq_false_iff.mpr hinline)]
        exact hquote _ _ (bears_render hcs hline)
    | preformatted =>
      exact absurd (tag_of_role hrole (by decide) (by decide)) hcode.tag_ne
    | list ordered =>
      simp only [reached, hrole, List.forall_mem_cons] at hraw
      simp only [block, hrole, bind_outcome_eq_ok_iff] at hok
      obtain ⟨first, _, ls, hls, hok⟩ := hok
      obtain rfl := Except.ok.inj hok
      simp only [references, hrole]
      exact (bears_items h hcs hraw.2 hls).unlines
    | definitions =>
      simp only [block, hrole, bind_outcome_eq_ok_iff] at hok
      obtain ⟨ds, hds, hok⟩ := hok
      obtain rfl := Except.ok.inj hok
      have hbears := bears_definitions hcs hds
      have hstart := startsWithMeaning_definitions hds
      simp only [references, hrole]
      exact hbears.layout (Markdown.ink_definitionList hstart) AnglesOpen.definitionList
    | table => exact bears_tableBlock h hrole hcode hraw hok
    | figure =>
      have hparts : Figure.parts? ⟨[], scope, .element name attrs cs⟩ = none :=
        Codeless.parts?_eq_none hcode
      simp only [reached, hrole, hparts, List.forall_mem_cons] at hraw
      simp only [block, hrole, hparts] at hok
      simp only [references, hrole]
      exact bears_inside h hcs hraw.2 (fun _ _ hbears => hbears) hok
    | container =>
      simp only [reached, hrole, List.forall_mem_cons] at hraw
      simp only [block, hrole] at hok
      simp only [references, hrole]
      exact bears_inside h hcs hraw.2 (fun _ _ hbears => hbears) hok
    | _ =>
      rw [Node.isBlock, hrole] at hblock
      cases hblock

/-- The rows at or below a node. -/
theorem bears_rowsOf {n : Node} (h : ∀ c ∈ n.children, c.Throughout (Accounted opts))
    (hcode : Codeless n.tags) {scope : Scope}
    (hraw : ∀ p ∈ reachedInRow scope n, p.isRawTable = false)
    (hok : ∀ row ∈ rowsOf opts scope n, ∀ c ∈ row.cells, c.content.Succeeds) :
    BearsAll (referencesInRow opts scope n)
      ((rowsOf opts scope n).flatMap fun row => row.cells.map Cell.value) := by
  cases n with
  | element name attrs cs =>
    have hcs : Codeless (tagsAll cs) := hcode.mono (List.subset_cons_self ..)
    rw [reachedInRow, List.forall_mem_append] at hraw
    rw [rowsOf, List.forall_mem_append] at hok
    rw [rowsOf, referencesInRow, List.flatMap_append]
    refine BearsAll.append ?_ (bears_rows h hcs hraw.2 hok.2)
    split
    · rename_i hrow
      rw [if_pos hrow] at hraw hok
      rw [List.flatMap_singleton]
      exact bears_cells h hcs hraw.1 (hok.1 _ (List.mem_cons_self ..))
    · exact .nil
  | text t =>
    simp only [rowsOf, referencesInRow]
    exact .nil
  | comment t =>
    simp only [rowsOf, referencesInRow]
    exact .nil
  | directive k t =>
    simp only [rowsOf, referencesInRow]
    exact .nil

theorem accounted (n : Node) : n.Throughout (Accounted opts) := by
  refine Node.throughout (fun n h => ?_) n
  exact ⟨fun hcode hblock _ hraw _ hok => bears_block h hcode hblock hraw hok,
    fun hcode _ _ _ hraw _ hok => bears_items h (hcode.mono (tagsAll_children_subset n)) hraw hok,
    fun hcode _ hraw hok => bears_rowsOf h hcode hraw hok⟩

end Render

/-! ## Documents -/

open Node (Codeless tagsAll)

/-- A document bears the links and images that are written in it. -/
theorem bears_convertTree {opts : Options} {ns : List Node} (hcode : Codeless (tagsAll ns))
    (htables : ∀ p ∈ Render.reachedAmong [Place.documentTag] Render.keepAll ns, p.isRawTable = false)
    {t : Text} (h : (convertTree opts ns).outcome = .ok t) :
    Bears (Render.referencesAmong opts [Place.documentTag] ns) t := by
  simp only [convertTree, Render.siblings, bind_outcome_eq_ok_iff] at h
  obtain ⟨joined, ⟨parts, hparts, hjoined⟩, h⟩ := h
  obtain rfl := Except.ok.inj hjoined
  obtain rfl := Except.ok.inj h
  have hbears := Render.bears_blocks (fun n _ => Render.accounted n) [] hcode htables hparts
  exact hbears.joinBlocks.layout (ink_isLess.gauge.normalize _ _) (AnglesOpen.normalize _)

/-- Away from code and raw tables, every opening angle bracket of a document opens the destination of
a link or an image, each of them one, exactly if no link or image that is written takes over a text
with such a bracket in it. -/
theorem angles_open_destinations_iff (opts : Options) (ns : List Node) (t : Text)
    (hcode : Codeless (tagsAll ns))
    (htables : ∀ p ∈ Render.reachedAmong [Place.documentTag] Render.keepAll ns, p.isRawTable = false)
    (h : (convertTree opts ns).outcome = .ok t) :
    (AnglesOpen t ∧ t.count '<' =
        ((Render.referencesAmong opts [Place.documentTag] ns).filter Inline.isBracketed).length) ↔
      ∀ n ∈ Render.referencesAmong opts [Place.documentTag] ns, ∀ s ∈ Inline.takenTexts n, '<' ∉ s := by
  have hbears := bears_convertTree hcode htables h
  have hcount := hbears.count
  rw [length_ink_isLess] at hcount
  rw [hcount, Inline.takenAll_eq_brackets_iff]
  exact ⟨fun hopen => hopen.2, fun hclean => ⟨hbears.opens hclean, hclean⟩⟩

/-- Text with angle brackets and a destination with a space, below a quotation and in a cell. -/
theorem angle_bracket_opens_destination :
    let ns : List Node := [
      .element "blockquote".toList [] [.element "p".toList [] [.text "a<b ".toList,
        .element "a".toList [("href".toList, some "c d".toList)] [.text "e".toList]]],
      .element "table".toList [] [.element "tr".toList [] [.element "td".toList [] [
        .element "img".toList [("src".toList, some "f(g".toList), ("alt".toList, some "h>".toList)]
          []]]]]
    let text := "> a&lt;b [e](<c d>)\n\n| ![h>](<f(g>) |\n|--------------|".toList
    (convertTree Options.standard ns).outcome = .ok text ∧
      AnglesOpen text ∧ text.count '<' =
        ((Render.referencesAmong Options.standard [Place.documentTag] ns).filter
          Inline.isBracketed).length :=
  ⟨rfl, (angles_open_destinations_iff Options.standard _ _ ⟨by decide, by decide⟩ (by decide) rfl).mpr
    (by decide)⟩

/-- The label of an image is the `alt` text, whatever that is. -/
theorem alt_text_opens_tag :
    let ns : List Node := [.element "img".toList
      [("src".toList, some "x".toList), ("alt".toList, some "<b>".toList)] []]
    Codeless (tagsAll ns) ∧
      (∀ p ∈ Render.reachedAmong [Place.documentTag] Render.keepAll ns, p.isRawTable = false) ∧
      (convertTree Options.standard ns).outcome = .ok "![<b>](x)".toList ∧
      ¬AnglesOpen "![<b>](x)".toList :=
  ⟨⟨by decide, by decide⟩, by decide, rfl, fun h =>
    absurd (h "![".toList "b>](x)".toList rfl) (by decide)⟩

end Hypermark
