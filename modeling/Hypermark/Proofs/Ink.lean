import Hypermark.Proofs.Spacing
import Hypermark.Text.Integer

/-!
# Ink

Layout adds and removes white space and a few markers.  Everything else in a text is its ink, and
the layout of headings, quotations, list items and whole documents passes ink on as it is.  The
lemmas hold for any kind of character that layout does not touch, so `Ink p` says of a predicate
that it picks neither white space nor a marker.

* `gauge_ink`: layout that only moves white space keeps the ink.
* `ink_heading`, `ink_quote`: so do the markers in front of headings and quotations.
* `ink_itemText`: an item of a list has the ink of its marker line and of its segments.
-/

namespace Hypermark

/-- The characters that layout puts in front of text. -/
def markers : Text := "#>-*.+0123456789".toList

theorem mem_markers_of_isDigit {c : Char} (h : c.isDigit = true) : c ∈ markers := by
  have hlow : 48 ≤ c.toNat := by simp [Char.isDigit, UInt32.le_iff_toNat_le] at h; exact h.1
  have hhigh : c.toNat ≤ 57 := by simp [Char.isDigit, UInt32.le_iff_toNat_le] at h; exact h.2
  have hall : ∀ k : Fin 10, Char.ofNat (48 + k) ∈ markers := by decide
  have hk := hall ⟨c.toNat - 48, by omega⟩
  rwa [show 48 + (c.toNat - 48) = c.toNat by omega, Char.ofNat_toNat] at hk

/-- Layout neither adds nor removes a character of the kind `p`. -/
structure Ink (p : Char → Bool) : Prop where
  blank : ∀ c, Text.isBlank c = true → p c = false
  marker : ∀ c ∈ markers, p c = false

namespace Text

variable {p : Char → Bool}

/-- The characters of a kind, in order. -/
def ink (p : Char → Bool) (t : Text) : Text := t.filter p

@[simp] theorem ink_nil : ink p [] = [] := rfl

@[simp] theorem ink_append (s t : Text) : ink p (s ++ t) = ink p s ++ ink p t :=
  List.filter_append s t

theorem ink_cons_of_neg {c : Char} (h : p c = false) (t : Text) : ink p (c :: t) = ink p t :=
  List.filter_cons_of_neg (by simp [h])

theorem ink_cons (c : Char) (t : Text) : ink p (c :: t) = ink p [c] ++ ink p t :=
  ink_append [c] t

theorem ink_eq_nil {t : Text} (h : ∀ c ∈ t, p c = false) : ink p t = [] :=
  List.filter_eq_nil_iff.mpr fun c hc => by simp [h c hc]

theorem ink_of_isEmpty {t : Text} (h : t.isEmpty = true) : ink p t = [] := by
  rw [List.isEmpty_iff.mp h, ink_nil]

theorem ink_flatMap {α : Type} (f : α → Text) (xs : List α) :
    ink p (xs.flatMap f) = xs.flatMap fun x => ink p (f x) := by
  induction xs with
  | nil => rfl
  | cons x xs ih => rw [List.flatMap_cons, ink_append, ih, List.flatMap_cons]

theorem ink_intercalate {sep : Text} (h : ink p sep = []) (parts : List Text) :
    ink p (sep.intercalate parts) = parts.flatMap (ink p) := by
  induction parts with
  | nil => rfl
  | cons t parts ih =>
    cases parts with
    | nil => simp [List.intercalate]
    | cons u parts =>
      rw [List.intercalate_cons_cons, ink_append, ink_append, ih, h, List.append_nil]
      rfl

/-- White space has no part in characters of a kind without it. -/
theorem gauge_ink (h : ∀ c, isBlank c = true → p c = false) : Gauge (ink p) where
  nil := rfl
  part s c t hc := by rw [ink_append, ink_cons_of_neg (h c hc)]

end Text

namespace Ink

open Text Markdown

variable {p : Char → Bool} (hp : Ink p)
include hp

/-! ## White space -/

theorem lineFeed : p '\n' = false := hp.blank _ rfl

theorem space : p ' ' = false := hp.blank _ rfl

theorem gauge : Gauge (ink p) := gauge_ink hp.blank

/-! ## Headings and quotations -/

theorem ink_heading (level : Nat) (t : Text) : ink p (heading level t) = ink p t := by
  have hline : ink p (headingLine t) = ink p t := hp.gauge.headingLine t
  have hhash : ink p (List.replicate level '#') = [] :=
    ink_eq_nil fun _ hc => (List.eq_of_mem_replicate hc).symm ▸ hp.marker _ (by decide)
  unfold heading
  by_cases he : (headingLine t).isEmpty = true
  · rw [if_pos he, ← hline, ink_of_isEmpty he, ink_nil]
  · rw [if_neg he, ink_append, hhash, List.nil_append, ink_cons_of_neg hp.space, hline]

theorem ink_quoteLine (line : Text) : ink p (quoteLine line) = ink p line := by
  have hmark : p '>' = false := hp.marker _ (by decide)
  unfold quoteLine
  by_cases hb : allBlank line = true
  · rw [if_pos hb, ink_cons_of_neg hmark, ink_nil, hp.gauge.of_allBlank hb]
  · rw [if_neg hb, ink_cons_of_neg hmark, ink_cons_of_neg hp.space]

theorem ink_quote (t : Text) : ink p (quote t) = ink p t := by
  unfold quote
  by_cases hb : allBlank t = true
  · rw [if_pos hb, ink_nil, hp.gauge.of_allBlank hb]
  · rw [if_neg hb, hp.gauge.unlines, hp.gauge.map_lines hp.ink_quoteLine]

theorem ink_thematicBreak : ink p thematicBreak = [] := by
  have hdash : p '-' = false := hp.marker _ (by decide)
  exact ink_eq_nil (by simp [thematicBreak, hdash])

/-! ## List items -/

theorem ink_indent (depth : Nat) : ink p (indent depth) = [] :=
  ink_eq_nil fun _ hc => (List.eq_of_mem_replicate hc).symm ▸ hp.space

theorem ink_bulletMarker (depth : Nat) : ink p (bulletMarker depth) = [] := by
  have hdash : p '-' = false := hp.marker _ (by decide)
  rw [bulletMarker, ink_append, hp.ink_indent]
  exact ink_eq_nil (by simp [hdash, hp.space])

theorem ink_ofInt (n : Int) : ink p (ofInt n) = [] := by
  have hdigits : ink p (ofNat n.natAbs) = [] := by
    apply ink_eq_nil
    intro c hc
    have hd : c.isDigit = true := Nat.isDigit_of_mem_toDigits (by decide) (by decide) hc
    exact hp.marker c (mem_markers_of_isDigit hd)
  have hdash : p '-' = false := hp.marker _ (by decide)
  unfold ofInt
  split
  · rw [ink_cons_of_neg hdash, hdigits]
  · exact hdigits

theorem ink_numberMarker (depth : Nat) (n : Int) : ink p (numberMarker depth (ofInt n)) = [] := by
  have hdot : p '.' = false := hp.marker _ (by decide)
  rw [numberMarker, ink_append, ink_append, hp.ink_indent, hp.ink_ofInt]
  exact ink_eq_nil (by simp [hdot, hp.space])

theorem ink_markerLine (marker text : Text) :
    ink p (markerLine marker text) = ink p marker ++ ink p text := by
  unfold markerLine
  by_cases he : text.isEmpty = true
  · rw [if_pos he, hp.gauge.trimEnd, ink_of_isEmpty he, List.append_nil]
  · rw [if_neg he, ink_append, hp.gauge.hangingText]

theorem ink_itemText (depth : Nat) (marker text : Text) (below : List (SegmentKind × Text)) :
    ink p (itemText depth marker text below) =
      ink p marker ++ ink p text ++ below.flatMap fun s => ink p s.2 := by
  rw [hp.gauge.itemText, hp.ink_markerLine]

end Ink

/-- White space and the characters of markers set aside. -/
def isInk (c : Char) : Bool := !Text.isBlank c && !markers.contains c

theorem ink_isInk : Ink isInk where
  blank c h := by simp [isInk, h]
  marker c h := by simp [isInk, h]

end Hypermark
