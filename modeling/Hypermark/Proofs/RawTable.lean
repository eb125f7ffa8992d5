import Hypermark.Convert
import Hypermark.Proofs.Item
import Hypermark.Proofs.Recursion
import Hypermark.Proofs.Word

/-!
# Raw tables come through

A table with another one in it is written as markup, and whatever a word of that markup is put
through on its way to the document, it comes out whole.

* `reachedInRows_no_table`: only tables with another table in them hold tables that are reached.
* `convertTree_carries`: every word of a raw table that is reached stands in the document.
-/

namespace Hypermark

open Traced

/-! ## Tags -/

namespace Node

mutual

/-- The tags of a node and of all elements below it. -/
def tags : Node → List Text
  | element name _ cs => Text.lower name :: tagsAll cs
  | _ => []

def tagsAll : List Node → List Text
  | [] => []
  | n :: ns => tags n ++ tagsAll ns

end

mutual

theorem map_tag_elementsBelow (path : List Nat) (scope : Scope) :
    (n : Node) → ((if n.isElement then [(⟨path, scope, n⟩ : Place)] else []) ++
      Place.elementsBelow path scope n).map Place.tag = n.tags
  | element name attrs cs => by
    have helement : (element name attrs cs).isElement = true := rfl
    rw [Place.elementsBelow, if_pos helement, tags, List.singleton_append, List.map_cons,
      map_tag_elementsAmong path (name :: scope) 0 cs]
    rfl
  | text t => rfl
  | comment t => rfl
  | directive k t => rfl

theorem map_tag_elementsAmong (path : List Nat) (scope : Scope) (i : Nat) :
    (ns : List Node) → (Place.elementsAmong path scope i ns).map Place.tag = tagsAll ns
  | [] => rfl
  | n :: ns => by
    rw [Place.elementsAmong, List.map_append, map_tag_elementsBelow (path ++ [i]) scope n,
      map_tag_elementsAmong path scope (i + 1) ns, tagsAll]

end

/-- A role that a single tag has. -/
theorem tag_of_role {n : Node} {role : Role} {tag : Text} (h : n.role = role)
    (hphrase : role ≠ .phrase) (hone : ∀ e ∈ Role.byTag, e.2 = role → e.1 = tag) : n.tag = tag :=
  hone _ (mem_byTag (h ▸ hphrase)) h

theorem tag_of_table {n : Node} (h : n.role = .table) : n.tag = "table".toList :=
  tag_of_role h (by decide) (by decide)

end Node

namespace Render

open Node

/-- What is known of the tags of a node: whatever is reached from it has one of them. -/
structure Tagged (n : Node) : Prop where
  block : ∀ scope, ∀ p ∈ reached scope n, p.tag ∈ n.tags
  rows : ∀ scope, ∀ p ∈ reachedInRow scope n, p.tag ∈ n.tags

section Siblings

variable {ns : List Node} (h : ∀ n ∈ ns, n.Throughout Tagged)
include h

theorem tag_of_mem_reachedAmong {scope : Scope} {keep : Nat → Bool} :
    ∀ p ∈ reachedAmong scope keep ns, p.tag ∈ tagsAll ns := by
  induction ns generalizing keep with
  | nil => simp [reachedAmong]
  | cons n ns ih =>
    rw [List.forall_mem_cons] at h
    rw [reachedAmong, List.forall_mem_append, tagsAll]
    refine ⟨fun p hp => List.mem_append_left _ ?_, fun p hp => List.mem_append_right _ (ih h.2 p hp)⟩
    split at hp
    · exact h.1.here.block scope p hp
    · cases hp

theorem tag_of_mem_reachedInItems {scope : Scope} :
    ∀ p ∈ reachedInItems scope ns, p.tag ∈ tagsAll ns := by
  induction ns with
  | nil => simp [reachedInItems]
  | cons n ns ih =>
    rw [List.forall_mem_cons] at h
    cases n with
    | element name attrs cs =>
      rw [reachedInItems, List.forall_mem_append, tagsAll]
      refine ⟨fun p hp => List.mem_append_left _ ?_,
        fun p hp => List.mem_append_right _ (ih h.2 p hp)⟩
      split at hp
      · rw [tags]
        exact List.mem_cons_of_mem _ (tag_of_mem_reachedAmong (fun c hc => h.1.child hc) p hp)
      · cases hp
    | text t => simpa only [reachedInItems, tagsAll, tags, List.nil_append] using ih h.2
    | comment t => simpa only [reachedInItems, tagsAll, tags, List.nil_append] using ih h.2
    | directive k t => simpa only [reachedInItems, tagsAll, tags, List.nil_append] using ih h.2

theorem tag_of_mem_reachedInCells {scope : Scope} :
    ∀ p ∈ reachedInCells scope ns, p.tag ∈ tagsAll ns := by
  induction ns with
  | nil => simp [reachedInCells]
  | cons n ns ih =>
    rw [List.forall_mem_cons] at h
    cases n with
    | element name attrs cs =>
      rw [reachedInCells, List.forall_mem_append, tagsAll]
      refine ⟨fun p hp => List.mem_append_left _ ?_,
        fun p hp => List.mem_append_right _ (ih h.2 p hp)⟩
      split at hp
      · rw [tags]
        exact List.mem_cons_of_mem _ (tag_of_mem_reachedAmong (fun c hc => h.1.child hc) p hp)
      · cases hp
    | text t => simpa only [reachedInCells, tagsAll, tags, List.nil_append] using ih h.2
    | comment t => simpa only [reachedInCells, tagsAll, tags, List.nil_append] using ih h.2
    | directive k t => simpa only [reachedInCells, tagsAll, tags, List.nil_append] using ih h.2

theorem tag_of_mem_reachedInRows {scope : Scope} :
    ∀ p ∈ reachedInRows scope ns, p.tag ∈ tagsAll ns := by
  induction ns with
  | nil => simp [reachedInRows]
  | cons n ns ih =>
    rw [List.forall_mem_cons] at h
    rw [reachedInRows, List.forall_mem_append, tagsAll]
    exact ⟨fun p hp => List.mem_append_left _ (h.1.here.rows scope p hp),
      fun p hp => List.mem_append_right _ (ih h.2 p hp)⟩

end Siblings

theorem tagged (n : Node) : n.Throughout Tagged := by
  refine Node.throughout (fun n h => ?_) n
  cases n with
  | text t => exact ⟨by simp [reached], by simp [reachedInRow]⟩
  | comment t => exact ⟨by simp [reached], by simp [reachedInRow]⟩
  | directive k t => exact ⟨by simp [reached], by simp [reachedInRow]⟩
  | element name attrs cs =>
    refine ⟨fun scope p hp => ?_, fun scope p hp => ?_⟩
    · rw [reached, List.mem_cons] at hp
      rcases hp with rfl | hp
      · exact List.mem_cons_self ..
      rw [tags]
      apply List.mem_cons_of_mem
      split at hp
      · split at hp
        · cases hp
        · exact tag_of_mem_reachedInRows h p hp
      · exact tag_of_mem_reachedInItems h p hp
      · split at hp
        · rcases List.mem_append.mp hp with hp | hp
          · exact tag_of_mem_reachedAmong h p hp
          · exact tag_of_mem_reachedAmong h p hp
        · exact tag_of_mem_reachedAmong h p hp
      · exact tag_of_mem_reachedAmong h p hp
      · exact tag_of_mem_reachedAmong h p hp
      · cases hp
    · rw [reachedInRow, List.mem_append] at hp
      rw [tags]
      apply List.mem_cons_of_mem
      rcases hp with hp | hp
      · split at hp
        · exact tag_of_mem_reachedInCells h p hp
        · cases hp
      · exact tag_of_mem_reachedInRows h p hp

/-- Below a table that is laid out no table is reached. -/
theorem reachedInRows_no_table {name : Text} {attrs : Attributes} {cs : List Node} {scope : Scope}
    (h : ((⟨[], scope, .element name attrs cs⟩ : Place).findTag? "table".toList).isSome = false)
    {p : Place} (hp : p ∈ reachedInRows (name :: scope) cs) : p.node.role ≠ .table := by
  intro hrole
  have htag : p.tag ∈ tagsAll cs := tag_of_mem_reachedInRows (fun n _ => tagged n) p hp
  rw [← map_tag_elementsAmong [] (name :: scope) 0 cs, List.mem_map] at htag
  obtain ⟨q, hq, hqp⟩ := htag
  have hnone := List.find?_eq_none.mp (Option.not_isSome_iff_eq_none.mp (Bool.eq_false_iff.mp h)) q hq
  rw [hqp, show p.tag = "table".toList from tag_of_table hrole] at hnone
  exact hnone (beq_self_eq_true _)

/-! ## Words of raw tables -/

/-- A word of the markup of a raw table. -/
def InRaw (w : Text) (p : Place) : Prop := p.isRawTable = true ∧ w <:+: p.node.outerMarkup

variable {w : Text} {opts : Options}

theorem not_inRaw_of_role {p : Place} (h : p.node.role ≠ .table) : ¬InRaw w p := by
  intro hin
  have hraw := hin.1
  rw [Place.isRawTable, Bool.and_eq_true, beq_iff_eq] at hraw
  exact h hraw.1

/-- What is known of a node once all nodes below it are understood: as a block it carries the words
of the raw tables that are reached, and so do its children as the items of a list. -/
structure Carries (w : Text) (opts : Options) (n : Node) : Prop where
  block : ∀ scope, ∀ p ∈ reached scope n, InRaw w p → ∀ t,
    (block opts scope n).outcome = .ok t → w <:+: t
  items : ∀ scope depth due, ∀ p ∈ reachedInItems scope n.children, InRaw w p → ∀ ls,
    (items opts scope depth due n.children).outcome = .ok ls → ∃ l ∈ ls, w <:+: l

variable (hw : Word w)
include hw

/-- A word of the texts that were taken goes on the marker line or is held back. -/
theorem occurs_taken {texts : List Text} {text t : Text} {held : Option Text}
    (h : Markdown.Taken texts text held) (ht : t ∈ texts) (hwt : w <:+: t) :
    w <:+: text ∨ ∃ u, held = some u ∧ w <:+: u := by
  induction h with
  | nothing => cases ht
  | line u =>
    rw [List.mem_singleton] at ht
    exact .inl (ht ▸ hwt)
  | trimmed u =>
    rw [List.mem_singleton] at ht
    exact .inl (hw.occurs_trim (ht ▸ hwt))
  | held u =>
    rw [List.mem_singleton] at ht
    exact .inr ⟨u, rfl, ht ▸ hwt⟩
  | empty _ ih =>
    rcases List.mem_cons.mp ht with rfl | ht
    · cases hw.not_isEmpty hwt
    · exact ih ht

/-- A word of a rendered segment stands in the item. -/
theorem occurs_renderItem {depth : Nat} {marker item : Text} {segments : List Segment}
    (hok : (Markdown.renderItem depth marker segments).outcome = .ok item) :
    ∃ texts, Markdown.Rendered segments texts ∧ ∀ t ∈ texts, w <:+: t → w <:+: item := by
  obtain ⟨before, after, text, held, kinds, hrendered, htaken, hlen, rfl⟩ :=
    Markdown.renderItem_outcome hok
  refine ⟨before ++ after, hrendered, fun t ht hwt => ?_⟩
  rcases List.mem_append.mp ht with ht | ht
  · rcases occurs_taken hw htaken ht hwt with htext | ⟨u, rfl, hu⟩
    · exact hw.occurs_itemText_of_marker depth marker _ htext
    · exact hw.occurs_itemText (s := (.block, u)) (List.mem_append_left _ (by simp)) hu
  · rw [← List.map_snd_zip hlen, List.mem_map] at ht
    obtain ⟨s, hs, rfl⟩ := ht
    exact hw.occurs_itemText (List.mem_append_right _ hs) hwt

theorem occurs_part {t : Text} (h : w <:+: t) : t ∈ part t := by
  rw [part, if_neg (by simp [hw.not_allBlank h])]
  exact List.mem_singleton_self t

section Siblings

variable {ns : List Node} (h : ∀ n ∈ ns, n.Throughout (Carries w opts)) {p : Place}
  (hin : InRaw w p)
include h hin

theorem blocks_carry {scope : Scope} {keep : Nat → Bool} {pending : List Node} {parts : List Text}
    (hp : p ∈ reachedAmong scope keep ns)
    (hok : (blocks opts scope keep pending ns).outcome = .ok parts) : ∃ t ∈ parts, w <:+: t := by
  induction ns generalizing keep pending parts with
  | nil =>
    rw [reachedAmong] at hp
    cases hp
  | cons n ns ih =>
    rw [List.forall_mem_cons] at h
    rw [reachedAmong, List.mem_append] at hp
    rw [blocks] at hok
    cases hk : keep 0 with
    | false =>
      simp only [hk, Bool.not_false, if_true, Bool.false_and, Bool.false_eq_true, if_false,
        List.not_mem_nil, false_or] at hok hp
      exact ih h.2 hp hok
    | true =>
      simp only [hk, Bool.not_true, Bool.false_eq_true, if_false, Bool.true_and] at hok hp
      by_cases hb : n.isBlock = true
      · rw [if_pos hb] at hok hp
        simp only [bind_outcome_eq_ok_iff] at hok
        obtain ⟨before, _, t, ht, rest, hrest, hok⟩ := hok
        obtain rfl := Except.ok.inj hok
        rcases hp with hp | hp
        · have hwt := h.1.here.block scope p hp hin t ht
          exact ⟨t, List.mem_append_left _ (List.mem_append_right _ (occurs_part hw hwt)), hwt⟩
        · obtain ⟨u, hu, hwu⟩ := ih h.2 hp hrest
          exact ⟨u, List.mem_append_right _ hu, hwu⟩
      · rw [if_neg hb] at hok hp
        have hp' := hp.resolve_left (List.not_mem_nil)
        split at hok
        · exact ih h.2 hp' hok
        · exact ih h.2 hp' hok

omit hw in
theorem segments_carry {scope : Scope} {depth : Nat} {pending : List Node} {texts : List Text}
    (hp : p ∈ reachedAmong scope keepAll ns)
    (hok : Markdown.Rendered (segments opts scope depth pending ns) texts) :
    ∃ t ∈ texts, w <:+: t := by
  induction ns generalizing pending texts with
  | nil =>
    rw [reachedAmong] at hp
    cases hp
  | cons n ns ih =>
    rw [List.forall_mem_cons] at h
    rw [reachedAmong, List.mem_append] at hp
    by_cases hb : n.isBlock = true
    · rw [keepAll, Bool.true_and, if_pos hb] at hp
      -- The block or list itself, and the segments after it.
      have hparts : ∀ s, Markdown.Rendered
          (runSegment scope pending ++ s :: segments opts scope depth [] ns) texts →
            (p ∈ reached scope n → ∀ t, s.rendering.outcome = .ok t → w <:+: t) →
              ∃ t ∈ texts, w <:+: t := by
        intro s hs hn
        obtain ⟨before, after, _, hafter, rfl⟩ := forall₂_append_left hs
        cases hafter with
        | cons ht hrest =>
          rcases hp with hp | hp
          · exact ⟨_, List.mem_append_right _ (List.mem_cons_self ..), hn hp _ ht⟩
          · obtain ⟨u, hu, hwu⟩ := ih h.2 hp hrest
            exact ⟨u, List.mem_append_right _ (List.mem_cons_of_mem _ hu), hwu⟩
      by_cases hl : ∃ ordered, n.role = .list ordered
      · obtain ⟨ordered, hrole⟩ := hl
        cases n with
        | element name attrs cs =>
          rw [segments_list hrole] at hok
          refine hparts _ hok fun hp t ht => ?_
          simp only [bind_outcome_eq_ok_iff] at ht
          obtain ⟨first, _, ls, hls, ht⟩ := ht
          obtain rfl := Except.ok.inj ht
          simp only [reached, hrole, List.mem_cons] at hp
          rcases hp with rfl | hp
          · refine absurd hin (not_inRaw_of_role fun htable => ?_)
            rw [hrole] at htable
            cases htable
          · obtain ⟨l, hl, hwl⟩ := h.1.here.items (name :: scope) (depth + 1) first p hp hin ls hls
            exact hwl.trans (infix_unlines hl)
        | text t => cases hrole
        | comment t => cases hrole
        | directive k t => cases hrole
      · rw [segments_block hb (not_exists.mp hl)] at hok
        exact hparts _ hok fun hp => h.1.here.block scope p hp hin
    · rw [segments_inline (Bool.eq_false_iff.mpr hb)] at hok
      rw [keepAll, Bool.true_and, if_neg hb] at hp
      exact ih h.2 (hp.resolve_left List.not_mem_nil) hok

theorem items_carry {scope : Scope} {depth : Nat} {due : Option Int} {ls : List Text}
    (hp : p ∈ reachedInItems scope ns) (hok : (items opts scope depth due ns).outcome = .ok ls) :
    ∃ l ∈ ls, w <:+: l := by
  induction ns generalizing due ls with
  | nil =>
    rw [reachedInItems] at hp
    cases hp
  | cons n ns ih =>
    rw [List.forall_mem_cons] at h
    rw [reachedInItems_cons, List.mem_append] at hp
    rcases items_cons hok with
      ⟨hli, number, marker, item, rest, -, -, hitem, hrest, rfl⟩ | ⟨hli, hrest⟩
    · rw [if_pos hli] at hp
      rcases hp with hp | hp
      · obtain ⟨texts, htexts, hoccurs⟩ := occurs_renderItem hw hitem
        obtain ⟨t, ht, hwt⟩ := segments_carry (fun c hc => h.1.child hc) hin hp htexts
        exact ⟨item, List.mem_cons_self .., hoccurs t ht hwt⟩
      · obtain ⟨l, hl, hwl⟩ := ih h.2 hp hrest
        exact ⟨l, List.mem_cons_of_mem _ hl, hwl⟩
    · rw [if_neg hli] at hp
      exact ih h.2 (hp.resolve_left List.not_mem_nil) hrest

end Siblings

/-- Blocks that are joined are not blank when a word is in them, so no container falls back on its
inline children. -/
theorem joined_carry {parts : List Text} {inline : Traced Text} {t : Text}
    (hparts : ∃ u ∈ parts, w <:+: u)
    (hok : (if Text.allBlank (Text.joinBlocks parts) then inline
      else Traced.pure (Text.joinBlocks parts)).outcome = .ok t) : w <:+: t := by
  obtain ⟨u, hu, hwu⟩ := hparts
  have hjoined : w <:+: Text.joinBlocks parts := hwu.trans (infix_joinBlocks hu)
  rw [hw.not_allBlank hjoined, if_neg Bool.false_ne_true] at hok
  exact Except.ok.inj hok ▸ hjoined

theorem codeFigure_carries {figure : Place} {parts : Figure.Parts}
    {before after : Traced (List Text)} {t : Text}
    (hok : (codeFigure opts figure parts before after).outcome = .ok t)
    (hparts : (∀ us, before.outcome = .ok us → ∃ u ∈ us, w <:+: u) ∨
      (∀ us, after.outcome = .ok us → ∃ u ∈ us, w <:+: u)) : w <:+: t := by
  simp only [codeFigure, bind_outcome_eq_ok_iff] at hok
  obtain ⟨caption, _, language, _, _, _, _, _, above, habove, below, hbelow, hok⟩ := hok
  obtain rfl := Except.ok.inj hok
  rcases hparts with h | h
  · obtain ⟨u, hu, hwu⟩ := h above habove
    have hjoined : w <:+: Text.joinBlocks above := hwu.trans (infix_joinBlocks hu)
    exact hjoined.trans (infix_joinBlocks (List.mem_append_left _
      (List.mem_append_left _ (occurs_part hw hjoined))))
  · obtain ⟨u, hu, hwu⟩ := h below hbelow
    have hjoined : w <:+: Text.joinBlocks below := hwu.trans (infix_joinBlocks hu)
    exact hjoined.trans (infix_joinBlocks (List.mem_append_right _ (occurs_part hw hjoined)))

theorem block_carries {n : Node} (h : ∀ c ∈ n.children, c.Throughout (Carries w opts))
    {scope : Scope} {p : Place} (hp : p ∈ reached scope n) (hin : InRaw w p) {t : Text}
    (hok : (block opts scope n).outcome = .ok t) : w <:+: t := by
  cases n with
  | element name attrs cs =>
    have hblocks : ∀ keep us, p ∈ reachedAmong (name :: scope) keep cs →
        (blocks opts (name :: scope) keep [] cs).outcome = .ok us → ∃ u ∈ us, w <:+: u :=
      fun keep us hp hok => blocks_carry hw h hin hp hok
    by_cases hrole : (Node.element name attrs cs).role = .table
    · simp only [reached, hrole, List.mem_cons] at hp
      simp only [block, hrole] at hok
      split at hok
      · rename_i hnested
        rw [if_pos hnested] at hp
        obtain rfl := hp.resolve_right List.not_mem_nil
        obtain rfl := Except.ok.inj hok
        exact hin.2
      · rename_i hflat
        rw [if_neg hflat] at hp
        have htable : p.node.role = .table := by
          by_contra hne
          exact not_inRaw_of_role hne hin
        rcases hp with rfl | hp
        · have hraw := hin.1
          rw [Place.isRawTable, Bool.and_eq_true] at hraw
          exact absurd hraw.2 hflat
        · exact absurd htable (reachedInRows_no_table (Bool.eq_false_iff.mpr hflat) hp)
    -- The element itself is no raw table, so the word comes from below.
    have hbelow : p ≠ ⟨[], scope, .element name attrs cs⟩ := by
      rintro rfl
      exact not_inRaw_of_role hrole hin
    cases hr : (Node.element name attrs cs).role with
    | table => exact absurd hr hrole
    | list ordered =>
      simp only [reached, hr, List.mem_cons, hbelow, false_or] at hp
      simp only [block, hr, bind_outcome_eq_ok_iff] at hok
      obtain ⟨first, _, ls, hls, hok⟩ := hok
      obtain rfl := Except.ok.inj hok
      obtain ⟨l, hl, hwl⟩ := items_carry hw h hin hp hls
      exact hwl.trans (infix_unlines hl)
    | quote =>
      simp only [reached, hr, List.mem_cons, hbelow, false_or] at hp
      have hany : cs.any Node.isBlock = true := by
        by_contra hany
        rw [reachedAmong_of_inline _ _ (Bool.eq_false_iff.mpr hany)] at hp
        cases hp
      simp only [block, hr, if_pos hany, bind_outcome_eq_ok_iff] at hok
      obtain ⟨us, hus, hok⟩ := hok
      obtain rfl := Except.ok.inj hok
      obtain ⟨u, hu, hwu⟩ := hblocks _ us hp hus
      exact hw.occurs_quote (hwu.trans (infix_joinBlocks hu))
    | figure =>
      simp only [reached, hr, List.mem_cons, hbelow, false_or] at hp
      simp only [block, hr] at hok
      cases hparts : Figure.parts? ⟨[], scope, .element name attrs cs⟩ with
      | some parts =>
        rw [hparts] at hp hok
        exact codeFigure_carries hw hok
          ((List.mem_append.mp hp).imp (fun hp us => hblocks _ us hp) fun hp us => hblocks _ us hp)
      | none =>
        rw [hparts] at hp hok
        obtain ⟨us, hus, hok⟩ := bind_outcome_eq_ok_iff.mp hok
        exact joined_carry hw (hblocks _ us hp hus) hok
    | container =>
      simp only [reached, hr, List.mem_cons, hbelow, false_or] at hp
      simp only [block, hr] at hok
      obtain ⟨us, hus, hok⟩ := bind_outcome_eq_ok_iff.mp hok
      exact joined_carry hw (hblocks _ us hp hus) hok
    | _ =>
      simp only [reached, hr, List.mem_cons, hbelow, false_or] at hp
      cases hp
  | text t => cases (List.not_mem_nil (by simpa only [reached] using hp))
  | comment t => cases (List.not_mem_nil (by simpa only [reached] using hp))
  | directive k t => cases (List.not_mem_nil (by simpa only [reached] using hp))

theorem carries (n : Node) : n.Throughout (Carries w opts) := by
  refine Node.throughout (fun n h => ?_) n
  exact ⟨fun _ _ hp hin _ => block_carries hw h hp hin, fun _ _ _ _ hp hin _ => items_carry hw h hin hp⟩

end Render

/-! ## Documents -/

/-- The words of a raw table that is reached stand in the document. -/
theorem convertTree_carries {w : Text} (hw : Word w) {opts : Options} {ns : List Node} {t : Text}
    (hok : (convertTree opts ns).outcome = .ok t) {p : Place}
    (hp : p ∈ Render.reachedAmong [Place.documentTag] Render.keepAll ns)
    (hraw : p.isRawTable = true) (hwp : w <:+: p.node.outerMarkup) : w <:+: t := by
  simp only [convertTree, Render.siblings, bind_outcome_eq_ok_iff] at hok
  obtain ⟨joined, ⟨parts, hparts, hjoined⟩, hok⟩ := hok
  obtain rfl := Except.ok.inj hjoined
  obtain rfl := Except.ok.inj hok
  obtain ⟨u, hu, hwu⟩ :=
    Render.blocks_carry hw (fun n _ => Render.carries hw n) ⟨hraw, hwp⟩ hp hparts
  exact hw.occurs_normalize _ (hwu.trans (infix_joinBlocks hu))

end Hypermark
