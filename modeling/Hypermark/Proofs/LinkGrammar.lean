import Hypermark.Inline.Render
import Hypermark.Proofs.Glyphs

/-!
# Reading links and images

A reader of inline links for texts that should be one link or image from the first character to the
last: the label up to the first closing bracket, then in parentheses the destination, in angle
brackets or bare, and maybe a title.  Escaped characters end nothing.

* `readInline?`: the reader.
* `body?_append`: a label and a title that were escaped come back whole.
* `destination?_eq_some_iff`: which destinations come back, in angle brackets and bare.
-/

namespace Hypermark.Markdown

/-! ## The reader -/

/-- A link or an image as read.  The destination is kept as it is written. -/
structure Reading where
  image : Bool
  label : Text
  destination : Text
  title : Option Text
deriving DecidableEq, Repr

/-- White space that may stand around a title. -/
def isGap (c : Char) : Bool := c == ' ' || c == '\t' || c == '\n' || c == '\r'

def isLineEnd (c : Char) : Bool := c == '\n' || c == '\r'

/-- A control or a space, at which a bare destination ends. -/
def endsRun (c : Char) : Bool := c.toNat ≤ 0x20 || c.toNat == 0x7F

/-- What stands before and after the first `c` that is not escaped. -/
def splitMark? (c : Char) : List Glyph → Option (List Glyph × List Glyph)
  | [] => none
  | g :: gs =>
    if g = mark c then some ([], gs) else (splitMark? c gs).map fun p => (g :: p.1, p.2)

/-- What stands after a `c` at the start. -/
def expect? (c : Char) : List Glyph → Option (List Glyph)
  | [] => none
  | g :: gs => if g = mark c then some gs else none

/-- A bare destination, inside `depth` parentheses of its own, and what follows it: a control, a
space or the closing parenthesis of the link. -/
def bare? (depth : Nat) : List Glyph → Option (List Glyph × List Glyph)
  | [] => none
  | g :: gs =>
    if endsRun g.char then (if depth = 0 then some ([], g :: gs) else none)
    else if g = mark ')' then
      if depth = 0 then some ([], g :: gs)
      else (bare? (depth - 1) gs).map fun p => (g :: p.1, p.2)
    else
      (bare? (if g = mark '(' then depth + 1 else depth) gs).map fun p => (g :: p.1, p.2)

/-- A destination and what follows it. -/
def destination? : List Glyph → Option (List Glyph × List Glyph)
  | [] => none
  | g :: gs =>
    if g = mark '<' then
      (splitMark? '>' gs).filter fun p => p.1.all fun g => g != mark '<' && !isLineEnd g.char
    else bare? 0 (g :: gs)

/-- Only the closing parenthesis is left. -/
def isEnd (gs : List Glyph) : Bool := gs.dropWhile (isGap ·.char) == [mark ')']

/-- What follows a destination to the end of the link: white space and a title, or nothing. -/
def title? : List Glyph → Option (Option Text)
  | [] => none
  | g :: gs =>
    if isEnd (g :: gs) then some none
    else if isGap g.char then
      (expect? '"' (gs.dropWhile (isGap ·.char))).bind fun gs =>
        (splitMark? '"' gs).bind fun p =>
          if isEnd p.2 then some (some (p.1.map Glyph.char)) else none
    else none

/-- A link or an image without its opening. -/
def body? (image : Bool) (gs : List Glyph) : Option Reading :=
  (splitMark? ']' gs).bind fun label =>
    (expect? '(' label.2).bind fun gs =>
      (destination? gs).bind fun destination =>
        (title? destination.2).map fun title =>
          ⟨image, label.1.map Glyph.char, written destination.1, title⟩

/-- A text that is one link or one image. -/
def readInline? (t : Text) : Option Reading :=
  match expect? '!' (glyphs t) with
  | some gs => (expect? '[' gs).bind (body? true)
  | none => (expect? '[' (glyphs t)).bind (body? false)

/-! ## Labels and titles -/

theorem splitMark?_eq_some_iff {c : Char} {gs xs ys : List Glyph} :
    splitMark? c gs = some (xs, ys) ↔ gs = xs ++ mark c :: ys ∧ mark c ∉ xs := by
  induction gs generalizing xs ys with
  | nil => simp [splitMark?]
  | cons g gs ih =>
    rw [splitMark?]
    split
    · rename_i hg
      subst hg
      constructor
      · intro h
        cases h
        exact ⟨rfl, nofun⟩
      · rintro ⟨h, hxs⟩
        cases xs with
        | nil => cases h; rfl
        | cons x xs =>
          cases h
          exact absurd (List.mem_cons_self ..) hxs
    · rename_i hg
      simp only [Option.map_eq_some_iff, Prod.exists, Prod.mk.injEq, ih]
      constructor
      · rintro ⟨xs, ys, ⟨rfl, hxs⟩, rfl, rfl⟩
        exact ⟨rfl, by simp [hxs, Ne.symm hg]⟩
      · rintro ⟨h, hxs⟩
        cases xs with
        | nil => exact absurd (List.cons.inj h).1 hg
        | cons x xs =>
          obtain ⟨rfl, hgs⟩ := List.cons.inj h
          exact ⟨xs, ys, ⟨hgs, fun hc => hxs (List.mem_cons_of_mem _ hc)⟩, rfl, rfl⟩

theorem expect?_mark (c : Char) (gs : List Glyph) : expect? c (mark c :: gs) = some gs := if_pos rfl

/-- The characters that are escaped in a title. -/
def isTitleMark (c : Char) : Bool := c = '\\' || c = '"'

theorem glyphs_escapeLabel_append (t rest : Text) :
    glyphs (escapeLabel t ++ rest) = escapedGlyphs labelMarks.contains t ++ glyphs rest := by
  have hall : labelMarks.all isPunctuation = true := rfl
  exact glyphs_escape_append (fun c hc => List.all_eq_true.mp hall c (List.contains_iff_mem.mp hc))
    rfl t rest

theorem glyphs_escapeTitle_append (t rest : Text) :
    glyphs (escapeTitle t ++ rest) = escapedGlyphs isTitleMark t ++ glyphs rest := by
  have hall : ∀ c, isTitleMark c = true → isPunctuation c = true := by
    intro c hc
    rcases Bool.or_eq_true_iff.mp hc with hc | hc <;> rw [of_decide_eq_true hc] <;> rfl
  exact glyphs_escape_append hall rfl t rest

/-- An escaped label ends at its bracket. -/
theorem body?_escapeLabel (image : Bool) (label rest : Text) :
    body? image (glyphs (escapeLabel label ++ "](".toList ++ rest)) =
      (destination? (glyphs rest)).bind fun destination =>
        (title? destination.2).map fun title =>
          ⟨image, label, written destination.1, title⟩ := by
  have hclosing : glyphs ("](".toList ++ rest) = mark ']' :: mark '(' :: glyphs rest := by
    show glyphs (']' :: '(' :: rest) = _
    rw [glyphs_cons_of_ne (by decide), glyphs_cons_of_ne (by decide)]
  have hsplit : splitMark? ']' (glyphs (escapeLabel label ++ "](".toList ++ rest)) =
      some (escapedGlyphs labelMarks.contains label, mark '(' :: glyphs rest) := by
    rw [List.append_assoc, glyphs_escapeLabel_append, hclosing]
    exact splitMark?_eq_some_iff.mpr ⟨rfl, mark_not_mem_escapedGlyphs rfl label⟩
  rw [body?, hsplit]
  simp only [Option.bind_some, expect?_mark, map_char_escapedGlyphs]

theorem title?_quoted {inner : List Glyph} (h : mark '"' ∉ inner) :
    title? (mark ' ' :: mark '"' :: (inner ++ [mark '"', mark ')'])) =
      some (some (inner.map Glyph.char)) := by
  have hmore : isEnd (mark ' ' :: mark '"' :: (inner ++ [mark '"', mark ')'])) = false := rfl
  have hgap : isGap (mark ' ').char = true := rfl
  have hend : isEnd [mark ')'] = true := rfl
  have hsplit : splitMark? '"' (inner ++ [mark '"', mark ')']) = some (inner, [mark ')']) :=
    splitMark?_eq_some_iff.mpr ⟨rfl, h⟩
  rw [title?, hmore, if_neg Bool.false_ne_true, if_pos hgap]
  show (expect? '"' (mark '"' :: _)).bind _ = _
  rw [expect?_mark, Option.bind_some, hsplit, Option.bind_some, if_pos hend]

/-- An escaped title ends at its quote. -/
theorem title?_titlePart (title : Text) :
    title? (glyphs (Inline.titlePart title ++ [')'])) =
      some (if title.isEmpty then none else some title) := by
  unfold Inline.titlePart
  cases title.isEmpty with
  | true => rfl
  | false =>
    have hglyphs : glyphs (" \"".toList ++ escapeTitle title ++ ['"'] ++ [')']) =
        mark ' ' :: mark '"' :: (escapedGlyphs isTitleMark title ++ [mark '"', mark ')']) := by
      rw [List.append_assoc, List.append_assoc]
      show glyphs (' ' :: '"' :: (escapeTitle title ++ ['"', ')'])) = _
      rw [glyphs_cons_of_ne (by decide), glyphs_cons_of_ne (by decide), glyphs_escapeTitle_append]
      rfl
    rw [if_neg Bool.false_ne_true, hglyphs, title?_quoted (mark_not_mem_escapedGlyphs rfl title),
      map_char_escapedGlyphs, if_neg Bool.false_ne_true]

/-! ## Destinations -/

/-- The destination is read back from between angle brackets. -/
structure ReadableInAngles (d : Text) : Prop where
  opening : mark '<' ∉ glyphs d
  closing : mark '>' ∉ glyphs d
  lineEnds : ∀ c ∈ d, isLineEnd c = false
  closed : Closed d

/-- The destination is read back where it stands bare, before a title or without one. -/
structure ReadableBare (titled : Bool) (d : Text) : Prop where
  opening : d.head? ≠ some '<'
  ends : ∀ c ∈ d, endsRun c = false
  closed : titled = false → Closed d

/-- The destination is read back as it is written into links and images. -/
def Readable (titled : Bool) (d : Text) : Prop :=
  if d.any endsDestination then ReadableInAngles d else ReadableBare titled d

instance (d : Text) : Decidable (ReadableInAngles d) :=
  letI : Decidable (∀ c ∈ d, isLineEnd c = false) := List.decidableBAll _ d
  decidable_of_iff (mark '<' ∉ glyphs d ∧ mark '>' ∉ glyphs d ∧ (∀ c ∈ d, isLineEnd c = false) ∧
    Closed d) ⟨fun h => ⟨h.1, h.2.1, h.2.2.1, h.2.2.2⟩, fun h => ⟨h.1, h.2, h.3, h.4⟩⟩

instance (titled : Bool) (d : Text) : Decidable (ReadableBare titled d) :=
  letI : Decidable (∀ c ∈ d, endsRun c = false) := List.decidableBAll _ d
  decidable_of_iff (d.head? ≠ some '<' ∧ (∀ c ∈ d, endsRun c = false) ∧
    (titled = false → Closed d)) ⟨fun h => ⟨h.1, h.2.1, h.2.2⟩, fun h => ⟨h.1, h.2, h.3⟩⟩

instance (titled : Bool) (d : Text) : Decidable (Readable titled d) :=
  inferInstanceAs (Decidable (if d.any endsDestination then ReadableInAngles d
    else ReadableBare titled d))

theorem bare?_eq_some {depth : Nat} {gs xs ys : List Glyph} (h : bare? depth gs = some (xs, ys)) :
    gs = xs ++ ys ∧ ∀ g ∈ xs, endsRun g.char = false := by
  induction gs generalizing depth xs with
  | nil => cases h
  | cons g gs ih =>
    have hcons : ∀ {depth}, endsRun g.char = false →
        (bare? depth gs).map (fun p => (g :: p.1, p.2)) = some (xs, ys) →
          g :: gs = xs ++ ys ∧ ∀ g ∈ xs, endsRun g.char = false := by
      intro depth hg h
      obtain ⟨p, hp, heq⟩ := Option.map_eq_some_iff.mp h
      cases heq
      obtain ⟨rfl, hends⟩ := ih hp
      exact ⟨rfl, List.forall_mem_cons.mpr ⟨hg, hends⟩⟩
    rw [bare?] at h
    split at h
    · split at h
      · cases h
        exact ⟨rfl, nofun⟩
      · cases h
    rename_i hends
    split at h
    · split at h
      · cases h
        exact ⟨rfl, nofun⟩
      · exact hcons (Bool.eq_false_iff.mpr hends) h
    · exact hcons (Bool.eq_false_iff.mpr hends) h

theorem bare?_append {xs ys : List Glyph} {e : Glyph}
    (h : ∀ g ∈ xs, endsRun g.char = false ∧ g ≠ mark '(' ∧ g ≠ mark ')')
    (he : endsRun e.char = true ∨ e = mark ')') :
    bare? 0 (xs ++ e :: ys) = some (xs, e :: ys) := by
  induction xs with
  | nil =>
    rw [List.nil_append, bare?]
    rcases he with hends | rfl
    · rw [if_pos hends, if_pos rfl]
    · rfl
  | cons g xs ih =>
    rw [List.forall_mem_cons] at h
    obtain ⟨⟨hends, hopening, hclosing⟩, hxs⟩ := h
    rw [List.cons_append, bare?, if_neg (by simp [hends]), if_neg hclosing, if_neg hopening, ih hxs]
    rfl

theorem destination?_of_head {c : Char} (h : c ≠ '<') (t : Text) :
    destination? (glyphs (c :: t)) = bare? 0 (glyphs (c :: t)) := by
  have hhead : ∀ g gs, glyphs (c :: t) = g :: gs → g ≠ mark '<' := by
    intro g gs hg
    rintro rfl
    have hwritten := written_glyphs (c :: t)
    rw [hg] at hwritten
    exact h (List.cons.inj hwritten).1.symm
  cases hg : glyphs (c :: t) with
  | nil => rfl
  | cons g gs => rw [destination?, if_neg (hhead g gs hg)]

section Destination

variable {d tail : Text} {e : Char} {xs ys : List Glyph}

/-- In angle brackets a destination ends at the first closing one. -/
theorem destination?_wrapped_iff :
    (destination? (glyphs ('<' :: d ++ ['>'] ++ tail)) = some (xs, ys) ∧ written xs = d) ↔
      ReadableInAngles d ∧ xs = glyphs d ∧ ys = glyphs tail := by
  have hsplit : destination? (glyphs ('<' :: d ++ ['>'] ++ tail)) =
      (splitMark? '>' (glyphs (d ++ '>' :: tail))).filter fun p =>
        p.1.all fun g => g != mark '<' && !isLineEnd g.char := by
    rw [List.append_assoc, List.cons_append, glyphs_cons_of_ne (by decide), destination?, if_pos rfl]
    rfl
  have hline : (∀ g ∈ glyphs d, isLineEnd g.char = false) ↔ ∀ c ∈ d, isLineEnd c = false :=
    forall_glyphs_iff rfl d
  have hclosing : glyphs ('>' :: tail) = mark '>' :: glyphs tail := glyphs_cons_of_ne (by decide) tail
  have hinside : ((glyphs d).all fun g => g != mark '<' && !isLineEnd g.char) = true ↔
      mark '<' ∉ glyphs d ∧ ∀ g ∈ glyphs d, isLineEnd g.char = false := by
    simp only [List.all_eq_true, Bool.and_eq_true, bne_iff_ne, ne_eq, Bool.not_eq_true']
    exact ⟨fun h => ⟨fun hmem => (h _ hmem).1 rfl, fun g hg => (h g hg).2⟩,
      fun h g hg => ⟨fun heq => h.1 (heq ▸ hg), h.2 g hg⟩⟩
  rw [hsplit, Option.filter_eq_some_iff, splitMark?_eq_some_iff]
  constructor
  · rintro ⟨⟨⟨hglyphs, hxs⟩, hall⟩, hwritten⟩
    obtain ⟨hparted, rfl, hys⟩ := eq_of_glyphs_append hglyphs hwritten
    obtain ⟨hopening, hends⟩ := hinside.mp hall
    rw [hclosing] at hys
    refine ⟨⟨hopening, hxs, hline.mp hends, ?_⟩, rfl, (List.cons.inj hys).2⟩
    exact hparted.resolve_right fun hhead => absurd (hhead '>' rfl) (by decide)
  · rintro ⟨h, rfl, rfl⟩
    refine ⟨⟨⟨?_, h.closing⟩, hinside.mpr ⟨h.opening, hline.mpr h.lineEnds⟩⟩, written_glyphs d⟩
    rw [glyphs_append (.inl h.closed), hclosing]

/-- A bare destination that starts with an angle bracket is taken for one in angle brackets, and
then it is not read back. -/
theorem destination?_of_angle (he : e ∉ '<' :: d) :
    ¬(destination? (glyphs ('<' :: d ++ e :: tail)) = some (xs, ys) ∧ written xs = '<' :: d) := by
  rintro ⟨hread, hwritten⟩
  rw [List.cons_append, glyphs_cons_of_ne (by decide), destination?, if_pos rfl,
    Option.filter_eq_some_iff, splitMark?_eq_some_iff] at hread
  have htext := congrArg written hread.1.1
  rw [written_glyphs, written, List.flatMap_append, ← written, hwritten, ← List.singleton_append,
    ← List.append_assoc] at htext
  have hstart : d ++ [e] = '<' :: d := (List.append_inj htext (by simp)).1
  exact he (hstart ▸ List.mem_append_right d (List.mem_singleton_self e))

/-- A bare destination ends at the first control, space or closing parenthesis. -/
theorem destination?_bare_iff {titled : Bool} (hne : d ≠ []) (hd : d.any endsDestination = false)
    (he : e = if titled then ' ' else ')') :
    (destination? (glyphs (d ++ e :: tail)) = some (xs, ys) ∧ written xs = d) ↔
      ReadableBare titled d ∧ xs = glyphs d ∧ ys = glyphs (e :: tail) := by
  have hplain : ∀ c ∈ d, endsDestination c = false := by simpa using hd
  have hend : endsDestination e = true := by rw [he]; cases titled <;> rfl
  obtain ⟨c, d, rfl⟩ := List.exists_cons_of_ne_nil hne
  by_cases hc : c = '<'
  · subst hc
    refine iff_of_false (destination?_of_angle fun hmem => ?_) fun h => h.1.opening rfl
    rw [hplain e hmem] at hend
    cases hend
  have hends : (∀ g ∈ glyphs (c :: d), endsRun g.char = false) ↔ ∀ b ∈ c :: d, endsRun b = false :=
    forall_glyphs_iff rfl (c :: d)
  have hparens : ∀ g ∈ glyphs (c :: d), endsDestination g.char = false :=
    (forall_glyphs_iff rfl (c :: d)).mpr hplain
  have hglyph : glyphs (e :: tail) = mark e :: glyphs tail :=
    glyphs_cons_of_ne (by rw [he]; cases titled <;> decide) tail
  rw [List.cons_append, destination?_of_head hc, ← List.cons_append]
  constructor
  · rintro ⟨hread, hwritten⟩
    obtain ⟨hglyphs, hxs⟩ := bare?_eq_some hread
    obtain ⟨hparted, rfl, hys⟩ := eq_of_glyphs_append hglyphs hwritten
    refine ⟨⟨fun hhead => hc (Option.some.inj hhead), hends.mp hxs, fun htitled => ?_⟩, rfl, hys⟩
    refine hparted.resolve_right fun hhead => absurd (hhead e rfl) ?_
    rw [he, htitled]
    decide
  · rintro ⟨h, rfl, rfl⟩
    have hparted : Parted (c :: d) (e :: tail) := by
      cases htitled : titled with
      | false => exact .inl (h.closed htitled)
      | true =>
        refine .inr fun b hb => ?_
        cases hb
        rw [he, htitled]
        rfl
    refine ⟨?_, written_glyphs (c :: d)⟩
    rw [glyphs_append hparted, hglyph]
    refine bare?_append (fun g hg => ⟨hends.mpr h.ends g hg, ?_, ?_⟩) ?_
    · rintro rfl
      cases hparens _ hg
    · rintro rfl
      cases hparens _ hg
    · rw [he]
      cases titled
      · exact .inr rfl
      · exact .inl rfl

theorem destination?_formatted_iff {titled : Bool} (hne : d ≠ [])
    (he : e = if titled then ' ' else ')') :
    (destination? (glyphs (formatDestination d ++ e :: tail)) = some (xs, ys) ∧ written xs = d) ↔
      Readable titled d ∧ xs = glyphs d ∧ ys = glyphs (e :: tail) := by
  rw [formatDestination, Readable]
  cases hd : d.any endsDestination with
  | true => exact destination?_wrapped_iff
  | false => exact destination?_bare_iff hne hd he

end Destination

/-! ## Whole links and images -/

/-- A link or an image with escaped label and title is read back exactly if its destination is. -/
theorem readInline?_eq_iff (image : Bool) (label title : Text) {d : Text} (hne : d ≠ []) :
    readInline? ((if image then "![".toList else "[".toList) ++ (escapeLabel label ++ "](".toList ++
      (formatDestination d ++ (Inline.titlePart title ++ [')'])))) =
        some ⟨image, label, d, if title.isEmpty then none else some title⟩ ↔
      Readable (!title.isEmpty) d := by
  obtain ⟨e, tail, htail, he⟩ : ∃ e tail, Inline.titlePart title ++ [')'] = e :: tail ∧
      e = if !title.isEmpty then ' ' else ')' := by
    unfold Inline.titlePart
    cases title.isEmpty <;> exact ⟨_, _, rfl, rfl⟩
  have hbody : ∀ t, readInline? ((if image then "![".toList else "[".toList) ++ t) =
      body? image (glyphs t) := by
    intro t
    unfold readInline?
    cases image with
    | false =>
      show (match expect? '!' (glyphs ('[' :: t)) with
        | some gs => (expect? '[' gs).bind (body? true)
        | none => (expect? '[' (glyphs ('[' :: t))).bind (body? false)) = _
      rw [glyphs_cons_of_ne (by decide), expect?_mark]
      rfl
    | true =>
      show (match expect? '!' (glyphs ('!' :: '[' :: t)) with
        | some gs => (expect? '[' gs).bind (body? true)
        | none => (expect? '[' (glyphs ('!' :: '[' :: t))).bind (body? false)) = _
      rw [glyphs_cons_of_ne (by decide), glyphs_cons_of_ne (by decide), expect?_mark]
      rfl
  have htitle := title?_titlePart title
  rw [hbody, body?_escapeLabel, htail]
  rw [htail] at htitle
  have hread : ∀ xs ys,
      (destination? (glyphs (formatDestination d ++ e :: tail)) = some (xs, ys) ∧ written xs = d) ↔
        Readable (!title.isEmpty) d ∧ xs = glyphs d ∧ ys = glyphs (e :: tail) := fun _ _ =>
    destination?_formatted_iff hne he
  constructor
  · intro h
    obtain ⟨⟨xs, ys⟩, hdestination, h⟩ := Option.bind_eq_some_iff.mp h
    obtain ⟨_, _, heq⟩ := Option.map_eq_some_iff.mp h
    exact ((hread xs ys).mp ⟨hdestination, congrArg Reading.destination heq⟩).1
  · intro h
    obtain ⟨hdestination, hwritten⟩ := (hread _ _).mpr ⟨h, rfl, rfl⟩
    rw [hdestination, Option.bind_some, htitle, hwritten]
    rfl

end Hypermark.Markdown
