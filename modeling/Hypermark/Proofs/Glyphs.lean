import Hypermark.Markdown.Escape

/-!
# Backslash escapes

A reader of Markdown takes a backslash before ASCII punctuation as an escape of that character, and
any other backslash as itself.  What it then goes by is a list of glyphs: characters that know
whether they were escaped.

* `written_glyphs`: the glyphs of a text are all of it.
* `resolve_eq_self_iff`: resolving changes a text only if there is an escape in it.
* `glyphs_append`, `eq_of_glyphs_append`: a text can be cut between two glyphs only.
* `glyphs_escape`: text escaped by the rules of a label or a title is read back.
-/

namespace Hypermark.Markdown

/-- A character as a reader takes it; an escaped one has no meaning of its own. -/
structure Glyph where
  char : Char
  escaped : Bool
deriving DecidableEq, Repr

/-- A character that may have a meaning. -/
def mark (c : Char) : Glyph := ⟨c, false⟩

/-- The glyph as it stands in the text. -/
def Glyph.written (g : Glyph) : Text := if g.escaped then ['\\', g.char] else [g.char]

def written (gs : List Glyph) : Text := gs.flatMap Glyph.written

/-- ASCII punctuation, which a backslash can escape. -/
def isPunctuation (c : Char) : Bool :=
  (0x21 ≤ c.toNat && c.toNat ≤ 0x2F) || (0x3A ≤ c.toNat && c.toNat ≤ 0x40) ||
    (0x5B ≤ c.toNat && c.toNat ≤ 0x60) || (0x7B ≤ c.toNat && c.toNat ≤ 0x7E)

/-- A backslash before `c` makes an escape. -/
def isEscape (b c : Char) : Bool := b == '\\' && isPunctuation c

/-- A text as a reader takes it. -/
def glyphs : Text → List Glyph
  | [] => []
  | [c] => [mark c]
  | b :: c :: t => if isEscape b c then ⟨c, true⟩ :: glyphs t else mark b :: glyphs (c :: t)

/-- A text with its escapes resolved. -/
def resolve (t : Text) : Text := (glyphs t).map Glyph.char

/-- No backslash is left at the end that could escape what follows. -/
def Closed (t : Text) : Prop := (glyphs t).getLast? ≠ some (mark '\\')

instance (t : Text) : Decidable (Closed t) := inferInstanceAs (Decidable (_ ≠ _))

/-! ## The characters of a text -/

theorem glyphs_cons_of_ne {c : Char} (h : c ≠ '\\') (t : Text) :
    glyphs (c :: t) = mark c :: glyphs t := by
  cases t with
  | nil => rfl
  | cons d t => rw [glyphs, isEscape, beq_false_of_ne h, Bool.false_and, if_neg Bool.false_ne_true]

theorem glyphs_append_of_no_backslash {g : Text} (hg : '\\' ∉ g) (t : Text) :
    glyphs (g ++ t) = g.map mark ++ glyphs t := by
  induction g with
  | nil => rfl
  | cons c g ih =>
    rw [List.mem_cons, not_or] at hg
    rw [List.cons_append, glyphs_cons_of_ne (Ne.symm hg.1), ih hg.2]
    rfl

theorem resolve_of_no_backslash {t : Text} (ht : '\\' ∉ t) : resolve t = t := by
  have hglyphs := glyphs_append_of_no_backslash ht []
  rw [List.append_nil, glyphs, List.append_nil] at hglyphs
  rw [resolve, hglyphs, List.map_map]
  exact List.map_id t

theorem written_cons (g : Glyph) (gs : List Glyph) : written (g :: gs) = g.written ++ written gs :=
  List.flatMap_cons

theorem written_ne_nil (g : Glyph) : g.written ≠ [] := by
  unfold Glyph.written
  split <;> simp

theorem written_eq_nil_iff {gs : List Glyph} : written gs = [] ↔ gs = [] := by
  cases gs with
  | nil => simp [written]
  | cons g gs => simp [written_cons, written_ne_nil]

theorem written_glyphs (t : Text) : written (glyphs t) = t := by
  fun_induction glyphs t with
  | case1 => rfl
  | case2 c => rfl
  | case3 b c t hescape ih =>
    obtain ⟨hb, _⟩ := Bool.and_eq_true_iff.mp hescape
    rw [written_cons, ih, Glyph.written, if_pos rfl, eq_of_beq hb]
    rfl
  | case4 b c t hescape ih =>
    rw [written_cons, ih]
    rfl

/-- A property that a backslash lacks holds of characters as it holds of glyphs. -/
theorem forall_glyphs_iff {p : Char → Bool} (hp : p '\\' = false) (t : Text) :
    (∀ g ∈ glyphs t, p g.char = false) ↔ ∀ c ∈ t, p c = false := by
  conv => rhs; rw [← written_glyphs t]
  simp only [written, List.mem_flatMap, forall_exists_index, and_imp]
  constructor
  · intro h c g hg hc
    unfold Glyph.written at hc
    split at hc
    · rcases List.mem_cons.mp hc with rfl | hc
      · exact hp
      · rw [List.mem_singleton.mp hc]
        exact h g hg
    · rw [List.mem_singleton.mp hc]
      exact h g hg
  · intro h g hg
    refine h g.char g hg ?_
    unfold Glyph.written
    split <;> simp

theorem length_le_written (gs : List Glyph) : gs.length ≤ (written gs).length := by
  induction gs with
  | nil => exact Nat.le_refl 0
  | cons g gs ih =>
    have hpos := List.length_pos_iff.mpr (written_ne_nil g)
    rw [written_cons, List.length_append, List.length_cons]
    omega

/-- Resolving changes a text exactly if something in it is escaped. -/
theorem resolve_eq_self_iff {t : Text} :
    resolve t = t ↔ ∀ g ∈ glyphs t, g.escaped = false := by
  have hglyphs : ∀ gs : List Glyph,
      gs.map Glyph.char = written gs ↔ ∀ g ∈ gs, g.escaped = false := by
    intro gs
    induction gs with
    | nil => simp [written]
    | cons g gs ih =>
      rw [List.forall_mem_cons, ← ih, List.map_cons, written_cons, Glyph.written]
      cases g.escaped with
      | false => simp
      | true =>
        -- A backslash more on the right, and nothing to make up for it.
        refine iff_of_false (fun h => ?_) (by simp)
        have hle := length_le_written gs
        have hlength := congrArg List.length h
        rw [if_pos rfl, List.length_cons, List.length_map, List.length_append, List.length_cons,
          List.length_singleton] at hlength
        omega
  rw [← hglyphs, written_glyphs, resolve]

/-! ## Cutting -/

theorem closed_nil : Closed [] := nofun

theorem getLast?_cons_glyphs (g : Glyph) {c : Char} {t : Text} :
    (g :: glyphs (c :: t)).getLast? = (glyphs (c :: t)).getLast? := by
  have hne : glyphs (c :: t) ≠ [] := by
    intro h
    have hwritten := written_glyphs (c :: t)
    rw [h] at hwritten
    cases hwritten
  obtain ⟨g', gs, hgs⟩ := List.exists_cons_of_ne_nil hne
  rw [hgs, List.getLast?_cons_cons]

/-- The glyphs before `b` stay what they are unless a backslash of `a` escapes its first character. -/
def Parted (a b : Text) : Prop := Closed a ∨ ∀ c ∈ b.head?, isPunctuation c = false

theorem glyphs_append {a b : Text} (h : Parted a b) : glyphs (a ++ b) = glyphs a ++ glyphs b := by
  fun_induction glyphs a with
  | case1 => rfl
  | case2 c =>
    cases b with
    | nil => rfl
    | cons d b =>
      have hescape : isEscape c d = false := by
        rw [isEscape, Bool.and_eq_false_iff]
        rcases h with hclosed | hhead
        · exact .inl (beq_false_of_ne fun hc => hclosed (by rw [hc]; rfl))
        · exact .inr (hhead d rfl)
      rw [List.singleton_append, glyphs, if_neg (by simp [hescape])]
      rfl
  | case3 c d t hescape ih =>
    have hnext : Parted t b := by
      refine h.imp_left fun hclosed => ?_
      cases t with
      | nil => exact closed_nil
      | cons e t =>
        rw [Closed, glyphs, if_pos hescape, getLast?_cons_glyphs] at hclosed
        exact hclosed
    rw [List.cons_append, List.cons_append, glyphs, if_pos hescape, ih hnext, List.cons_append]
  | case4 c d t hescape ih =>
    have hnext : Parted (d :: t) b := by
      refine h.imp_left fun hclosed => ?_
      rw [Closed, glyphs, if_neg hescape, getLast?_cons_glyphs] at hclosed
      exact hclosed
    rw [List.cons_append, List.cons_append, glyphs, if_neg hescape, ← List.cons_append, ih hnext,
      List.cons_append]

/-- Glyphs that are written as `a` are the glyphs of `a`, and nothing of them is needed for `b`. -/
theorem eq_of_glyphs_append {a b : Text} {xs ys : List Glyph} (h : glyphs (a ++ b) = xs ++ ys)
    (hxs : written xs = a) : Parted a b ∧ xs = glyphs a ∧ ys = glyphs b := by
  fun_induction glyphs a generalizing xs with
  | case1 =>
    rw [written_eq_nil_iff.mp hxs] at h ⊢
    exact ⟨.inl closed_nil, rfl, h.symm⟩
  | case2 c =>
    obtain ⟨g, xs, rfl⟩ := List.exists_cons_of_ne_nil (l := xs) (by rintro rfl; cases hxs)
    have hmark : g = mark c ∧ xs = [] := by
      obtain ⟨d, escaped⟩ := g
      cases escaped with
      | true => cases hxs
      | false =>
        obtain ⟨hd, hnil⟩ := List.cons.inj hxs
        exact ⟨congrArg mark hd, written_eq_nil_iff.mp hnil⟩
    obtain ⟨rfl, rfl⟩ := hmark
    cases b with
    | nil =>
      cases h
      exact ⟨.inr nofun, rfl, rfl⟩
    | cons d b =>
      rw [List.singleton_append, glyphs] at h
      split at h
      · cases h
      · rename_i hescape
        refine ⟨?_, rfl, (List.cons.inj h).2.symm⟩
        by_cases hc : c = '\\'
        · refine .inr fun e he => ?_
          cases he
          simpa [isEscape, hc] using hescape
        · exact .inl fun hlast => hc (congrArg Glyph.char (Option.some.inj hlast))
  | case3 c d t hescape ih =>
    obtain ⟨g, xs, rfl⟩ := List.exists_cons_of_ne_nil (l := xs) (by rintro rfl; cases hxs)
    rw [List.cons_append, List.cons_append, glyphs, if_pos hescape, List.cons_append] at h
    obtain ⟨rfl, hrest⟩ := List.cons.inj h
    obtain ⟨hparted, rfl, rfl⟩ := ih hrest (List.cons.inj (List.cons.inj hxs).2).2
    refine ⟨hparted.imp_left fun hclosed => ?_, rfl, rfl⟩
    cases t with
    | nil =>
      rw [Closed, glyphs, if_pos hescape]
      exact nofun
    | cons e t => rwa [Closed, glyphs, if_pos hescape, getLast?_cons_glyphs]
  | case4 c d t hescape ih =>
    obtain ⟨g, xs, rfl⟩ := List.exists_cons_of_ne_nil (l := xs) (by rintro rfl; cases hxs)
    rw [List.cons_append, List.cons_append, glyphs, if_neg hescape, List.cons_append] at h
    obtain ⟨rfl, hrest⟩ := List.cons.inj h
    obtain ⟨hparted, rfl, rfl⟩ := ih hrest (List.cons.inj hxs).2
    refine ⟨hparted.imp_left fun hclosed => ?_, rfl, rfl⟩
    rwa [Closed, glyphs, if_neg hescape, getLast?_cons_glyphs]

/-! ## Escaping -/

/-- A text whose meaningful characters are escaped. -/
def escapedGlyphs (meaningful : Char → Bool) (t : Text) : List Glyph :=
  t.map fun c => ⟨c, meaningful c⟩

theorem map_char_escapedGlyphs (meaningful : Char → Bool) (t : Text) :
    (escapedGlyphs meaningful t).map Glyph.char = t := by
  rw [escapedGlyphs, List.map_map]
  exact List.map_id t

theorem mark_not_mem_escapedGlyphs {meaningful : Char → Bool} {c : Char} (h : meaningful c = true)
    (t : Text) : mark c ∉ escapedGlyphs meaningful t := by
  intro hmem
  obtain ⟨d, _, hd⟩ := List.mem_map.mp hmem
  obtain ⟨rfl, hescaped⟩ := Glyph.mk.inj hd
  rw [h] at hescaped
  cases hescaped

section Escaping

variable {meaningful : Char → Bool} (hpunctuation : ∀ c, meaningful c = true → isPunctuation c = true)
  (hbackslash : meaningful '\\' = true)

include hpunctuation hbackslash

/-- A text in which a backslash stands before every meaningful character, itself included. -/
theorem glyphs_escape (t : Text) :
    glyphs (t.flatMap fun c => if meaningful c then ['\\', c] else [c]) =
      escapedGlyphs meaningful t := by
  induction t with
  | nil => rfl
  | cons c t ih =>
    rw [List.flatMap_cons, escapedGlyphs, List.map_cons, ← escapedGlyphs, ← ih]
    split
    · rename_i hc
      have hescape : isEscape '\\' c = true := by rw [isEscape, hpunctuation c hc]; rfl
      rw [List.cons_append, List.singleton_append, glyphs, if_pos hescape, hc]
    · rename_i hc
      have hne : c ≠ '\\' := by
        rintro rfl
        exact hc hbackslash
      rw [List.singleton_append, glyphs_cons_of_ne hne, mark, Bool.eq_false_iff.mpr hc]

theorem glyphs_escape_append (t rest : Text) :
    glyphs ((t.flatMap fun c => if meaningful c then ['\\', c] else [c]) ++ rest) =
      escapedGlyphs meaningful t ++ glyphs rest := by
  have hglyphs := glyphs_escape hpunctuation hbackslash t
  rw [glyphs_append (.inl fun hlast => ?_), hglyphs]
  rw [hglyphs] at hlast
  exact mark_not_mem_escapedGlyphs hbackslash t (List.mem_of_getLast? hlast)

end Escaping

end Hypermark.Markdown
