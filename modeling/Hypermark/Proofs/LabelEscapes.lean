import Hypermark.Proofs.HardBreaks
import Hypermark.Proofs.LinkReading

/-!
# Escapes in labels

The label of a link is escaped when it has collapsed, and in its literal text only.  By then emphasis
and anchors inside of it have collapsed already and were copied into it, with their texts still
literal, so every character of a text is escaped once at whatever depth it stands.  A reader finds
the collapsed label when it resolves the escapes, and no bracket that could end the label early.

* `Inline.bare_addNodes`: nothing in a run of text and emphasis is finished Markdown but delimiters.
* `glyphs_raw_escape`: a label as a reader takes it, fragment by fragment.
* `letters_collapsed`: the literal text of a label is the text of its nodes.
* `label_escaped_once`: what is written for a link with such a label.
-/

namespace Hypermark

open Text Markdown

/-! ## Fragments of a label -/

/-- The fragment is literal text, a hard break or a delimiter of emphasis. -/
inductive Fragment.Bare : Fragment → Prop
  | text (t : Text) : Bare (.text t)
  | hardBreak (t : Text) : Bare (.hardBreak t)
  | strong : Bare (.markup Inline.strongMark)
  | emphasis : Bare (.markup Inline.emphasisMark)

/-- A fragment of a label as a reader takes it: the meaningful characters of literal text are
escaped, all else stands for itself. -/
def Fragment.labelGlyphs : Fragment → List Glyph
  | .text t => escapedGlyphs labelMarks.contains t
  | f => f.content.map mark

/-- All but literal text is asterisks and line feeds. -/
def Fragment.Starred (f : Fragment) : Prop := f.isText = false → ∀ c ∈ f.content, c = '*' ∨ c = '\n'

namespace Inline

open Node

theorem ofMarkup_bare : OfMarkup Fragment.Bare := ⟨.text, .hardBreak⟩

mutual

theorem bare_addNode (scope : Scope) : (n : Node) → n.everyShown isBroken = true → (b : Buffer) →
    (∀ f ∈ b, f.Bare) → ∀ f ∈ (addNode scope n b).1, f.Bare
  | .text t, _, b, hb => ofMarkup_bare.addText hb _
  | .comment t, _, b, hb => hb
  | .directive k t, _, b, hb => hb
  | .element name attrs cs, h, b, hb => by
    by_cases hi : (element name attrs cs).role = .ignored
    · simp only [addNode, hi]
      exact hb
    obtain ⟨hhere, hbelow⟩ := everyShown_of_not_ignored h hi
    rw [← allShown_iff] at hbelow
    have hlabel := bare_addNodes (name :: scope) false cs hbelow [] (List.forall_mem_nil _)
    cases hrole : (element name attrs cs).role with
    | ignored => exact absurd hrole hi
    | link =>
      have hhref : (hrefOf (element name attrs cs)).isEmpty = true := by
        simpa [isBroken, isFlowing, hrole] using hhere
      simp only [addNode, hrole, if_pos hhref]
      exact ofMarkup_bare.addAnchor hb hlabel
    | lineBreak =>
      simp only [addNode, hrole]
      exact OfMarkup.concat hb (.hardBreak _)
    | image => simp [isBroken, isFlowing, hrole] at hhere
    | code => simp [isBroken, isFlowing, hrole] at hhere
    | strong =>
      simp only [addNode, hrole]
      exact ofMarkup_bare.addWrapped hb hlabel .strong
    | emphasis =>
      simp only [addNode, hrole]
      exact ofMarkup_bare.addWrapped hb hlabel .emphasis
    | _ =>
      simp only [addNode, hrole]
      exact bare_addNodes (name :: scope) false cs hbelow b hb

theorem bare_addNodes (scope : Scope) (dropped : Bool) : (ns : List Node) →
    allShown isBroken ns = true → (b : Buffer) → (∀ f ∈ b, f.Bare) →
      ∀ f ∈ addNodes scope dropped ns b, f.Bare
  | [], _, b, hb => by
    rw [addNodes]
    exact hb
  | n :: ns, h, b, hb => by
    rw [allShown, Bool.and_eq_true] at h
    rw [addNodes]
    split
    · exact bare_addNodes scope false ns h.2 b hb
    · exact bare_addNodes scope _ ns h.2 _ (bare_addNode scope n h.1 b hb)

end

/-- Text, breaks, emphasis and anchors come to nothing but literal text, breaks and delimiters. -/
theorem bare_buffer (scope : Scope) {ns : List Node} (h : allShown isBroken ns = true) :
    ∀ f ∈ buffer scope ns, f.Bare :=
  bare_addNodes scope false ns h [] (List.forall_mem_nil _)

end Inline

namespace Buffer

/-! ## Reading a label -/

theorem starred_collapsed {b : Buffer} (h : ∀ f ∈ b, f.Bare) : ∀ f ∈ collapsed b, f.Starred := by
  refine forall_mem_settle (fun n _ c hc => ?_) (fun hf => ?_) fun f hf => ?_
  · exact .inr (List.eq_of_mem_replicate hc)
  · cases hf
  · rcases of_piece_mem_atoms hf with ⟨m, rfl, hm⟩ | ⟨_, run, rfl, _⟩
    · intro _ c hc
      left
      cases h _ hm with
      | strong => exact List.eq_of_mem_replicate (n := 2) hc
      | emphasis => exact List.mem_singleton.mp hc
    · nofun

/-- A label with its literal text escaped is read back fragment by fragment. -/
theorem glyphs_raw_escape {label : Buffer} (h : ∀ f ∈ label, f.Starred) :
    glyphs (raw (label.map (Fragment.mapText escapeLabel))) =
      label.flatMap Fragment.labelGlyphs := by
  induction label with
  | nil => rfl
  | cons f label ih =>
    rw [List.forall_mem_cons] at h
    rw [List.flatMap_cons, ← ih h.2]
    have hplain : f.isText = false → glyphs (f.content ++ raw (label.map
        (Fragment.mapText escapeLabel))) = f.content.map mark ++ glyphs (raw (label.map
          (Fragment.mapText escapeLabel))) := by
      intro hf
      refine glyphs_append_of_no_backslash (fun hmem => ?_) _
      rcases h.1 hf _ hmem with hc | hc
      · cases hc
      · cases hc
    cases f with
    | text t => exact glyphs_escapeLabel_append t _
    | markup m => exact hplain rfl
    | hardBreak t => exact hplain rfl

theorem map_char_labelGlyphs (label : Buffer) :
    (label.flatMap Fragment.labelGlyphs).map Glyph.char = raw label := by
  rw [List.map_flatMap, raw]
  refine congrArg (label.flatMap ·) (funext fun f => ?_)
  have hmarks : (f.content.map mark).map Glyph.char = f.content := by
    rw [List.map_map]
    exact List.map_id _
  cases f with
  | text t => exact map_char_escapedGlyphs _ t
  | markup m => exact hmarks
  | hardBreak t => exact hmarks

/-- No meaningful character of a label is left but asterisks. -/
theorem mark_not_mem_labelGlyphs {label : Buffer} (h : ∀ f ∈ label, f.Starred) {c : Char}
    (hc : labelMarks.contains c = true) (hstar : c ≠ '*') :
    mark c ∉ label.flatMap Fragment.labelGlyphs := by
  intro hmem
  obtain ⟨f, hf, hglyph⟩ := List.mem_flatMap.mp hmem
  have hplain : f.isText = false → mark c ∉ f.content.map mark := by
    intro hkind hmark
    obtain ⟨d, hd, heq⟩ := List.mem_map.mp hmark
    obtain rfl : d = c := congrArg Glyph.char heq
    rcases h f hf hkind d hd with rfl | rfl
    · exact hstar rfl
    · cases hc
  cases f with
  | text t => exact mark_not_mem_escapedGlyphs hc t hglyph
  | markup m => exact hplain rfl hglyph
  | hardBreak t => exact hplain rfl hglyph

/-! ## The text of a label -/

/-- The characters that do not collapse. -/
def letters (t : Text) : Text := t.filter (!isSpace ·)

theorem letters_append (s t : Text) : letters (s ++ t) = letters s ++ letters t :=
  List.filter_append s t

theorem letters_cons_of_isSpace {c : Char} (hc : isSpace c = true) (t : Text) :
    letters (c :: t) = letters t := List.filter_cons_of_neg (by simp [hc])

theorem letters_of_spaces {t : Text} (h : ∀ c ∈ t, isSpace c = true) : letters t = [] :=
  List.filter_eq_nil_iff.mpr fun c hc => by simp [h c hc]

theorem letters_dropWhile (t : Text) : letters (t.dropWhile isSpace) = letters t := by
  have h := letters_append (t.takeWhile isSpace) (t.dropWhile isSpace)
  rw [List.takeWhile_append_dropWhile,
    letters_of_spaces fun c hc => List.mem_takeWhile_imp hc] at h
  exact h.symm

theorem letters_trimSpaces (t : Text) : letters (trimSpaces t) = letters t := by
  have h := letters_append ((t.dropWhile isSpace).rdropWhile isSpace)
    ((t.dropWhile isSpace).rtakeWhile isSpace)
  rw [List.rdropWhile_append_rtakeWhile, letters_dropWhile,
    letters_of_spaces fun c hc => List.mem_rtakeWhile_imp hc, List.append_nil] at h
  exact h.symm

theorem letters_collapseSpaces (t : Text) : letters (collapseSpaces t) = letters t := by
  induction t with
  | nil => rfl
  | cons c t ih =>
    by_cases hc : isSpace c = true
    · rw [collapseSpaces_cons_of_isSpace hc, letters_cons_of_isSpace (by decide),
        letters_dropWhile, ih, letters_cons_of_isSpace hc]
    · rw [Bool.not_eq_true] at hc
      have hkeep : ∀ s : Text, letters (c :: s) = c :: letters s := fun s =>
        List.filter_cons_of_pos (by simp [hc])
      rw [collapseSpaces_cons_of_not hc, hkeep, hkeep, ih]

/-- Kept or lost, the letters of the marks are those of the source. -/
theorem letters_keptText (ms : List Mark) : letters (keptText ms) = letters (ms.map Mark.source) := by
  induction ms with
  | nil => rfl
  | cons m ms ih =>
    show letters (m.kept ++ keptText ms) = letters ([m.source] ++ ms.map Mark.source)
    rw [letters_append, letters_append, ih]
    cases m with
    | shown c => rfl
    | hardBreak => rfl
    | lost c hc =>
      have hlost : letters [c] = [] := letters_cons_of_isSpace hc []
      show [] ++ _ = letters [c] ++ _
      rw [hlost]

theorem letters_plain_softened {b : Buffer}
    (h : ∀ t, .hardBreak t ∈ b → ∀ c ∈ t, isSpace c = true) :
    letters (plain (softened b)) = letters (plain b) := by
  induction b with
  | nil => rfl
  | cons f b ih =>
    have hrest := ih fun t ht => h t (List.mem_cons_of_mem _ ht)
    have hcons : ∀ (f : Fragment) (b : Buffer), plain (f :: b) = plain [f] ++ plain b :=
      fun f b => plain_append [f] b
    rw [softened, List.map_cons, hcons, hcons f, letters_append, letters_append]
    refine congr (congrArg _ ?_) hrest
    cases f with
    | text t => rfl
    | markup m => rfl
    | hardBreak t =>
      have ht := h t (List.mem_cons_self ..)
      rw [show plain [.hardBreak t] = t from List.append_nil t, letters_of_spaces ht]
      cases t with
      | nil => rfl
      | cons c t => rfl

/-- The literal text of a traced buffer, collapsed, has the letters of the source. -/
theorem letters_collapsed {b : Buffer} {ms : List Mark} (h : Traces b ms) :
    letters (plain (collapsed b)) = letters (ms.map Mark.source) := by
  calc letters (plain (collapsed b))
      = letters (plain (softened (collapsed b))) :=
        (letters_plain_softened fun t ht => spaces_of_mem_collapsed ht).symm
    _ = letters (plain (collapsed (softened b))) := by rw [collapsed_softened]
    _ = letters (trimSpaces (collapseSpaces (keptText ms))) := by rw [h.follows.plain_collapsed]
    _ = letters (ms.map Mark.source) := by
      rw [letters_trimSpaces, letters_collapseSpaces, letters_keptText]

end Buffer

/-! ## Links -/

namespace Inline

open Buffer Node

/-- For a link to a safe destination, with a label of text, breaks, emphasis and anchors at any
depth, the label is written as it has collapsed, with one backslash before each meaningful character
of its literal text and nothing else changed.  Literal text is all of it but breaks and delimiters,
and has the letters of the nodes.  So a reader sees each of these characters escaped and the
delimiters not, resolving gives the collapsed label back, and no bracket in it means anything. -/
theorem label_escaped_once (scope : Scope) (name : Text) (attrs : Attributes) (cs : List Node)
    (b : Buffer) (hrole : (element name attrs cs).role = .link)
    (hsafe : Link.isSafe (hrefOf (element name attrs cs)) = true)
    (hshown : allShown isBroken cs = true) :
    let child := buffer (name :: scope) cs
    let label := collapsed child
    ∃ text, addNode scope (element name attrs cs) b = (b.addSurrounded child
        [.markup (linkMarkup text (hrefOf (element name attrs cs)))], false) ∧
      text = raw (label.map (Fragment.mapText escapeLabel)) ∧
      (∀ m, .markup m ∈ label → m = strongMark ∨ m = emphasisMark) ∧
      letters (plain label) = letters (brokenTexts cs) ∧
      glyphs text = label.flatMap Fragment.labelGlyphs ∧
      resolve text = raw label ∧ mark '[' ∉ glyphs text ∧ mark ']' ∉ glyphs text := by
  intro child label
  have hbare : ∀ f ∈ child, f.Bare := bare_buffer (name :: scope) hshown
  have hstarred : ∀ f ∈ label, f.Starred := starred_collapsed hbare
  have htext : child.collapseWith escapeLabel = raw (label.map (Fragment.mapText escapeLabel)) := by
    rw [collapseWith, collapsedWith_eq_map rfl]
  have hglyphs := glyphs_raw_escape hstarred
  have htraces : Traces child (marksAll cs) :=
    traces_addNodes (fun n _ => addsMarks n) (allShown_iff.mp hshown) (name :: scope) Traces.nil
  refine ⟨_, addNode_link hrole hsafe, htext, fun m hm => ?_, ?_, ?_, ?_, ?_, ?_⟩
  · cases ofMarkup_bare.collapsed hbare _ hm with
    | strong => exact .inl rfl
    | emphasis => exact .inr rfl
  · rw [letters_collapsed htraces, map_source_marksAll]
  · rw [htext, hglyphs]
  · rw [resolve, htext, hglyphs, map_char_labelGlyphs]
  · rw [htext, hglyphs]
    exact mark_not_mem_labelGlyphs hstarred rfl (by decide)
  · rw [htext, hglyphs]
    exact mark_not_mem_labelGlyphs hstarred rfl (by decide)

/-- A label with a bracket in an anchor in an emphasis, a break and an asterisk of the text. -/
def nestedLabel : List Node :=
  [.text "a* ".toList, .element "b".toList [] [.element "a".toList [] [.text "[b".toList],
    .element "br".toList [] [], .text "c]".toList]]

theorem nested_label_escaped_once :
    allShown isBroken nestedLabel = true ∧
      let n := element "a".toList [("href".toList, some "/u".toList)] nestedLabel
      n.role = .link ∧ Link.isSafe (hrefOf n) = true ∧
        addNode [] n [] = ([.markup "[a\\* **\\[b\nc\\]**](/u)".toList], false) ∧
        ∃ text, addNode [] n [] = ([.markup (linkMarkup text "/u".toList)], false) ∧
          resolve text = "a* **[b\nc]**".toList ∧ mark '[' ∉ glyphs text := by
  refine ⟨rfl, rfl, rfl, rfl, ?_⟩
  obtain ⟨text, hwritten, _, _, _, _, hresolve, hbracket, _⟩ :=
    label_escaped_once [] "a".toList [("href".toList, some "/u".toList)] nestedLabel [] rfl rfl rfl
  exact ⟨text, hwritten, hresolve, hbracket⟩

end Inline

end Hypermark
