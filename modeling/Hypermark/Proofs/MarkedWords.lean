import Hypermark.Proofs.References
import Hypermark.Proofs.Words

/-!
# Words with markers among them

Layout never runs two words together: between the lines that it puts under each other there is white
space, and what it writes in front of a line is a marker that stands by itself.  So the words of what
is laid out are all there, in order, and any other word is a marker.

* `Marked`: words, and the same words with markers among them.
* `Marked.heading`, `Marked.quote`, `Marked.renderItem`, `Marked.definitionList`: one kind of layout
  after the other.
* `exists_gap`: where the words of a text come in two parts, there is white space between them.
-/

namespace Hypermark

open Text

/-- The character belongs to a marker. -/
def isMarker (c : Char) : Bool := c == ':' || markers.contains c

/-- The second list has the words of the first, in order, and markers among them. -/
inductive Marked : List Text → List Text → Prop
  | nil : Marked [] []
  | word (w : Text) {ws vs : List Text} : Marked ws vs → Marked (w :: ws) (w :: vs)
  | marker {m : Text} {ws vs : List Text} : (∀ c ∈ m, isMarker c = true) → Marked ws vs →
      Marked ws (m :: vs)

namespace Marked

variable {ws ws' vs vs' us : List Text}

theorem refl (ws : List Text) : Marked ws ws := by
  induction ws with
  | nil => exact .nil
  | cons w ws ih => exact .word w ih

theorem append (h : Marked ws vs) (h' : Marked ws' vs') : Marked (ws ++ ws') (vs ++ vs') := by
  induction h with
  | nil => exact h'
  | word w _ ih => exact .word w ih
  | marker hm _ ih => exact .marker hm ih

theorem trans (h : Marked us vs) (h' : Marked vs ws) : Marked us ws := by
  induction h' generalizing us with
  | nil => exact h
  | word w _ ih =>
    cases h with
    | word _ h => exact .word w (ih h)
    | marker hm h => exact .marker hm (ih h)
  | marker hm _ ih => exact .marker hm (ih h)

theorem flatMap {α : Type} {f g : α → List Text} (xs : List α) (h : ∀ x, Marked (f x) (g x)) :
    Marked (xs.flatMap f) (xs.flatMap g) := by
  induction xs with
  | nil => exact .nil
  | cons x xs ih => exact (h x).append ih

/-- Two parts of the words are found in two parts of the whole. -/
theorem split (h : Marked (ws ++ ws') us) :
    ∃ vs vs', us = vs ++ vs' ∧ Marked ws vs ∧ Marked ws' vs' := by
  induction us generalizing ws with
  | nil =>
    generalize hall : ws ++ ws' = all at h
    cases h
    obtain ⟨rfl, rfl⟩ := List.append_eq_nil_iff.mp hall
    exact ⟨[], [], rfl, .nil, .nil⟩
  | cons u us ih =>
    cases ws with
    | nil => exact ⟨[], u :: us, rfl, .nil, h⟩
    | cons w ws =>
      cases h with
      | word _ h =>
        obtain ⟨vs, vs', rfl, hvs, hvs'⟩ := ih h
        exact ⟨u :: vs, vs', rfl, .word u hvs, hvs'⟩
      | marker hm h =>
        obtain ⟨vs, vs', rfl, hvs, hvs'⟩ := @ih (w :: ws) h
        exact ⟨u :: vs, vs', rfl, .marker hm hvs, hvs'⟩

theorem ne_nil (h : Marked ws vs) (hne : ws ≠ []) : vs ≠ [] := by
  cases h with
  | nil => exact absurd rfl hne
  | word w _ => exact List.cons_ne_nil _ _
  | marker _ _ => exact List.cons_ne_nil _ _

/-! ## Markers -/

/-- The text has nothing but markers and white space. -/
def Bare (t : Text) : Prop := ∀ c ∈ t, isBlank c = true ∨ isMarker c = true

theorem of_bare {t : Text} (h : Bare t) : Marked [] (words t) := by
  suffices hall : ∀ m ∈ words t, ∀ c ∈ m, isMarker c = true by
    generalize words t = ms at hall
    induction ms with
    | nil => exact .nil
    | cons m ms ih =>
      rw [List.forall_mem_cons] at hall
      exact .marker hall.1 (ih hall.2)
  induction t with
  | nil =>
    rw [gauge_words.nil]
    exact List.forall_mem_nil _
  | cons c t ih =>
    obtain ⟨hc, ht⟩ := List.forall_mem_cons.mp h
    cases hb : isBlank c with
    | true =>
      rw [gauge_words.cons hb]
      exact ih ht
    | false =>
      have hmark : isMarker c = true := hc.resolve_left (by simp [hb])
      rw [words_cons_letter t hb]
      split
      · cases hw : words t with
        | nil => exact List.forall_mem_nil _
        | cons w ws =>
          have hws := List.forall_mem_cons.mp (hw ▸ ih ht)
          exact List.forall_mem_cons.mpr ⟨List.forall_mem_cons.mpr ⟨hmark, hws.1⟩, hws.2⟩
      · exact List.forall_mem_cons.mpr ⟨(List.forall_mem_singleton ..).mpr hmark, ih ht⟩

/-- A marker with a space behind it. -/
theorem behind {m : Text} (hm : Bare m) (t : Text) : Marked (words t) (words (m ++ ' ' :: t)) := by
  rw [gauge_words.part m t rfl]
  exact (of_bare hm).append (refl _)

/-! ## Blocks -/

theorem heading (level : Nat) (t : Text) : Marked (words t) (words (Markdown.heading level t)) := by
  have hbare : Bare (List.replicate level '#') := fun c hc =>
    .inr ((List.eq_of_mem_replicate hc).symm ▸ rfl)
  rw [← gauge_words.headingLine t, Markdown.heading]
  split
  · rename_i he
    rw [gauge_words.of_isEmpty he, gauge_words.nil]
    exact .nil
  · exact behind hbare _

theorem quoteLine (line : Text) : Marked (words line) (words (Markdown.quoteLine line)) := by
  have hbare : Bare ['>'] := (List.forall_mem_singleton ..).mpr (.inr rfl)
  unfold Markdown.quoteLine
  split
  · rename_i hb
    rw [gauge_words.of_allBlank hb]
    exact of_bare hbare
  · exact behind hbare line

theorem quote (t : Text) : Marked (words t) (words (Markdown.quote t)) := by
  unfold Markdown.quote
  split
  · rename_i hb
    rw [gauge_words.of_allBlank hb, gauge_words.nil]
    exact .nil
  · rw [gauge_words.unlines, List.flatMap_map, ← gauge_words.lines t]
    exact flatMap _ quoteLine

theorem thematicBreak : Marked [] (words Markdown.thematicBreak) :=
  of_bare fun c hc => by
    rw [show c = '-' by simpa [Markdown.thematicBreak] using hc]
    exact .inr rfl

theorem definitionList {ds : List Markdown.Definition} (h : Markdown.startsWithMeaning ds = false) :
    Marked ((Markdown.entryLines ds).flatMap words) (words (Markdown.definitionList ds)) := by
  have hbare : Bare [':'] := (List.forall_mem_singleton ..).mpr (.inr rfl)
  rw [gauge_words.definitionList h]
  clear h
  induction ds with
  | nil => exact .nil
  | cons d ds ih =>
    cases d with
    | term t =>
      rw [Markdown.entryLines, Markdown.definitionLines, List.flatMap_append, List.flatMap_append]
      exact (refl _).append ih
    | meaning m => exact (behind hbare m).append ih

/-! ## List items -/

/-- The marker of an item ends in a space, and all before it is a marker. -/
theorem exists_itemMarker {depth : Nat} {number : Option Int} {marker : Text}
    (h : Render.itemMarker depth number = .ok marker) : ∃ m, Bare m ∧ marker = m ++ [' '] := by
  have hbare : Bare marker := by
    intro c hc
    have hink := List.filter_eq_nil_iff.mp (Render.ink_itemMarker ink_isInk h) c hc
    rw [isInk, Bool.and_eq_true, Bool.not_eq_true', Bool.not_eq_true', not_and_or,
      Bool.not_eq_false, Bool.not_eq_false] at hink
    exact hink.imp_right fun hmark => by rw [isMarker, hmark, Bool.or_true]
  obtain ⟨m, rfl⟩ : ∃ m, marker = m ++ [' '] := by
    cases number with
    | none =>
      obtain rfl := Except.ok.inj h
      exact ⟨Markdown.indent depth ++ ['-'], (List.append_assoc _ ['-'] [' ']).symm⟩
    | some k =>
      simp only [Render.itemMarker, Text.writeInteger] at h
      split at h
      · obtain rfl := Except.ok.inj h
        exact ⟨Markdown.indent depth ++ ofInt k ++ ['.'], (List.append_assoc _ ['.'] [' ']).symm⟩
      · cases h
  exact ⟨m, fun c hc => hbare c (List.mem_append_left _ hc), rfl⟩

theorem markerLine {m : Text} (hm : Bare m) (text : Text) :
    Marked (words text) (words (Markdown.markerLine (m ++ [' ']) text)) := by
  unfold Markdown.markerLine
  split
  · rename_i he
    rw [gauge_words.of_isEmpty he, gauge_words.trimEnd]
    have h := behind hm []
    rwa [gauge_words.nil] at h
  · rw [List.append_assoc, ← gauge_words.hangingText (m ++ [' ']).length text]
    exact behind hm _

/-- An item has the words of its segments in order, behind those of its marker. -/
theorem renderItem {depth : Nat} {number : Option Int} {marker item : Text}
    (hmarker : Render.itemMarker depth number = .ok marker) {segments : List Segment}
    (h : (Markdown.renderItem depth marker segments).outcome = .ok item) :
    ∃ texts, Markdown.Rendered segments texts ∧ Marked (texts.flatMap words) (words item) := by
  obtain ⟨m, hm, rfl⟩ := exists_itemMarker hmarker
  obtain ⟨texts, text, below, hrendered, htexts, hitem⟩ := gauge_words.renderItem h
  refine ⟨texts, hrendered, ?_⟩
  rw [htexts, hitem]
  exact (markerLine hm text).append (refl below)

end Marked

/-! ## Gaps -/

namespace Text

theorem ne_nil_of_words {a : Text} (h : words a ≠ []) : a ≠ [] := by
  rintro rfl
  exact h gauge_words.nil

/-- A first part with a word in it tells whether the whole text opens with one. -/
theorem opensWord_append {a : Text} (h : words a ≠ []) (b : Text) :
    opensWord (a ++ b) = opensWord a := by
  obtain ⟨c, a, rfl⟩ := List.exists_cons_of_ne_nil (ne_nil_of_words h)
  rfl

/-- Where the words of a text come in two parts, there is white space between the two. -/
theorem exists_gap {t : Text} {ws ws' : List Text} (h : words t = ws ++ ws') (hne : ws ≠ [])
    (hne' : ws' ≠ []) : ∃ a w b, t = a ++ w ++ b ∧ w ≠ [] ∧ (∀ c ∈ w, isBlank c = true) ∧
      words a = ws ∧ words b = ws' := by
  induction t generalizing ws with
  | nil =>
    rw [gauge_words.nil] at h
    exact absurd (List.append_eq_nil_iff.mp h.symm).1 hne
  | cons c t ih =>
    cases hc : isBlank c with
    | true =>
      rw [gauge_words.cons hc] at h
      obtain ⟨a, w, b, rfl, hw, hblank, ha, hb⟩ := ih h hne
      exact ⟨c :: a, w, b, rfl, hw, hblank, (gauge_words.cons hc a).trans ha, hb⟩
    | false =>
      obtain ⟨u, ws, rfl⟩ := List.exists_cons_of_ne_nil hne
      rw [words_cons_letter t hc] at h
      split at h
      · -- `c` begins the word that `t` goes on with
        rename_i hopens
        cases hwords : words t with
        | nil =>
          rw [hwords] at h
          cases h
        | cons v vs =>
          rw [hwords] at h
          obtain ⟨rfl, rfl⟩ := List.cons.inj h
          obtain ⟨a, w, b, rfl, hw, hblank, ha, hb⟩ := @ih (v :: ws) hwords (List.cons_ne_nil _ _)
          rw [List.append_assoc, opensWord_append (ha ▸ List.cons_ne_nil _ _)] at hopens
          refine ⟨c :: a, w, b, rfl, hw, hblank, ?_, hb⟩
          rw [words_cons_letter a hc, if_pos hopens, ha]
          rfl
      · rename_i hopens
        obtain ⟨rfl, hwords⟩ := List.cons.inj h
        by_cases hlast : ws = []
        · -- `c` is the last word of the first part
          subst hlast
          have ht : words t ≠ [] := fun hnil => hne' (hwords.symm.trans hnil)
          obtain ⟨d, t, rfl⟩ := List.exists_cons_of_ne_nil (ne_nil_of_words ht)
          have hd : isBlank d = true := by simpa [opensWord] using hopens
          rw [gauge_words.cons hd] at hwords
          refine ⟨[c], [d], t, rfl, List.cons_ne_nil _ _, ?_, ?_, hwords⟩
          · exact (List.forall_mem_singleton ..).mpr hd
          · rw [words_cons_letter [] hc, gauge_words.nil]
            rfl
        · obtain ⟨a, w, b, rfl, hw, hblank, ha, hb⟩ := ih hwords hlast
          rw [List.append_assoc, opensWord_append (ha ▸ hlast)] at hopens
          refine ⟨c :: a, w, b, rfl, hw, hblank, ?_, hb⟩
          rw [words_cons_letter a hc, if_neg hopens, ha]

end Text

end Hypermark
