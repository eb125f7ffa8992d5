import Hypermark.Proofs.LinkReading
import Hypermark.Proofs.Trim

/-!
# Destinations as they are read

The scheme of a destination is judged on the attribute as it stands.  A reader of the document takes
angle brackets off and resolves escapes first, and what it then sees before the colon can be another
scheme than the one that was judged.

* `isSafe_throughColon`: only the text up to the first colon is judged.
* `throughColon_resolve`, `isSafe_read`: a reader goes by that part too, its markup taken off.
* `safe_as_read_iff`: when an accepted destination is still acceptable as it is read.
* `escaped_colon_hides_script`: one that is not.
-/

namespace Hypermark

open Markdown

namespace Link

/-! ## The part that is judged -/

/-- The text up to the first colon and with it, or all of it if there is none. -/
def throughColon (t : Text) : Text :=
  t.takeWhile (· != ':') ++ (if t.contains ':' then [':'] else [])

theorem throughColon_nil : throughColon [] = [] := rfl

theorem throughColon_cons_colon (t : Text) : throughColon (':' :: t) = [':'] := by
  simp [throughColon]

theorem throughColon_cons_of_ne {c : Char} (hc : c ≠ ':') (t : Text) :
    throughColon (c :: t) = c :: throughColon t := by
  simp [throughColon, hc, Ne.symm hc]

theorem exists_throughColon_cons (c : Char) (t : Text) :
    ∃ part, throughColon (c :: t) = c :: part := by
  by_cases hc : c = ':'
  · exact ⟨[], by rw [hc, throughColon_cons_colon]⟩
  · exact ⟨_, throughColon_cons_of_ne hc t⟩

theorem isPrefixOf_append_colon {p : Text} (hp : ':' ∉ p) (g x : Text) :
    p.isPrefixOf (g ++ ':' :: x) = p.isPrefixOf g := by
  induction p generalizing g with
  | nil => simp
  | cons c p ih =>
    rw [List.mem_cons, not_or] at hp
    cases g with
    | nil => simp [List.isPrefixOf, Ne.symm hp.1]
    | cons d g => rw [List.cons_append, List.isPrefixOf, List.isPrefixOf, ih hp.2]

theorem isRelative_append_colon (g x : Text) : isRelative (g ++ ':' :: x) = isRelative g := by
  have hcolon : ∀ p ∈ relativePrefixes, ':' ∉ p := by decide
  unfold isRelative
  rw [Bool.eq_iff_iff, List.any_eq_true, List.any_eq_true]
  refine exists_congr fun p => and_congr_right fun hp => ?_
  rw [isPrefixOf_append_colon (hcolon p hp)]

theorem afterWord?_append_colon {w : Text} (hw : ∀ l ∈ w, Text.isLetter l ':' = false) (g x : Text) :
    Text.afterWord? w (g ++ ':' :: x) = (Text.afterWord? w g).map (· ++ ':' :: x) := by
  induction w generalizing g with
  | nil => rfl
  | cons l w ih =>
    rw [List.forall_mem_cons] at hw
    cases g with
    | nil => simp [Text.afterWord?, hw.1]
    | cons c g =>
      rw [List.cons_append, Text.afterWord?, Text.afterWord?, ih hw.2]
      split <;> rfl

theorem head?_dropWhile_append_colon (r x : Text) :
    ((r ++ ':' :: x).dropWhile Text.isBlank).head? = ((r ++ [':']).dropWhile Text.isBlank).head? := by
  induction r with
  | nil => rfl
  | cons c r ih =>
    rw [List.cons_append, List.cons_append, List.dropWhile_cons, List.dropWhile_cons]
    split
    · exact ih
    · rfl

theorem hasScriptScheme_append_colon (g x : Text) :
    hasScriptScheme (g ++ ':' :: x) = hasScriptScheme (g ++ [':']) := by
  have hall : scriptSchemes.all (fun w => w.all fun l => !Text.isLetter l ':') = true := rfl
  have hletters : ∀ w ∈ scriptSchemes, ∀ l ∈ w, Text.isLetter l ':' = false := fun w hw l hl =>
    (Bool.not_eq_true' _).mp (List.all_eq_true.mp (List.all_eq_true.mp hall w hw) l hl)
  unfold hasScriptScheme
  rw [Bool.eq_iff_iff, List.any_eq_true, List.any_eq_true]
  refine exists_congr fun w => and_congr_right fun hw => ?_
  rw [afterWord?_append_colon (hletters w hw), afterWord?_append_colon (hletters w hw)]
  cases Text.afterWord? w g with
  | none => rfl
  | some r =>
    show (((r ++ ':' :: x).dropWhile Text.isBlank).head? == some ':') = true ↔ _
    rw [head?_dropWhile_append_colon]
    rfl

theorem scheme?_append_colon (g x : Text) : scheme? (g ++ ':' :: x) = scheme? (g ++ [':']) := by
  have htake : ∀ g : Text, (g ++ ':' :: x).takeWhile isSchemeChar =
      (g ++ [':']).takeWhile isSchemeChar := by
    intro g
    induction g with
    | nil => rfl
    | cons c g ih =>
      rw [List.cons_append, List.cons_append, List.takeWhile_cons, List.takeWhile_cons, ih]
  have hend : ∀ g : Text, ((g ++ ':' :: x).drop ((g ++ [':']).takeWhile isSchemeChar).length).head? =
      ((g ++ [':']).drop ((g ++ [':']).takeWhile isSchemeChar).length).head? := by
    intro g
    induction g with
    | nil => rfl
    | cons c g ih =>
      rw [List.cons_append, List.cons_append, List.takeWhile_cons]
      split
      · exact ih
      · rfl
  cases g with
  | nil => rfl
  | cons c g =>
    have hchars := htake (c :: g)
    have hcolon := hend (c :: g)
    simp only [List.cons_append] at hchars hcolon
    simp only [List.cons_append, scheme?, hchars, hcolon]

theorem isAllowed_append_colon (g x : Text) : isAllowed (g ++ ':' :: x) = isAllowed (g ++ [':']) := by
  rw [isAllowed, isAllowed, hasScriptScheme_append_colon, scheme?_append_colon]

theorem compact_append_colon (g x : Text) : compact (g ++ ':' :: x) = compact g ++ ':' :: compact x := by
  rw [compact, List.filter_append, List.filter_cons_of_pos (by rfl)]
  rfl

theorem isSafe_append_colon (g x : Text) : isSafe (g ++ ':' :: x) = isSafe (g ++ [':']) := by
  have hne : ∀ a b : Text, (a ++ ':' :: b).isEmpty = false := by simp
  have htrim : ∀ x, Text.trim (g ++ ':' :: x) = Text.trimStart g ++ ':' :: Text.trimEnd x :=
    Text.trim_append_cons rfl g
  simp only [isSafe, htrim, hne, isRelative_append_colon, compact_append_colon]
  rw [isAllowed_append_colon, isAllowed_append_colon _ (compact _)]

theorem afterWord?_suffix {w t r : Text} (h : Text.afterWord? w t = some r) : r <:+ t := by
  induction w generalizing t with
  | nil =>
    cases h
    exact List.suffix_refl _
  | cons l w ih =>
    cases t with
    | nil => cases h
    | cons c t =>
      rw [Text.afterWord?] at h
      split at h
      · exact (ih h).trans (List.suffix_cons c t)
      · cases h

/-- A destination without a colon has no scheme. -/
theorem isAllowed_of_no_colon {t : Text} (ht : ':' ∉ t) : isAllowed t = true := by
  have hend : ∀ r : Text, r <:+ t → (r.head? == some ':') = false := by
    intro r hr
    refine beq_false_of_ne fun hhead => ht ?_
    exact hr.subset (List.mem_of_head? hhead)
  have hscript : hasScriptScheme t = false := by
    unfold hasScriptScheme
    rw [List.any_eq_false]
    intro w _
    cases hafter : Text.afterWord? w t with
    | none => exact Bool.false_ne_true
    | some r =>
      show ¬((r.dropWhile Text.isBlank).head? == some ':') = true
      rw [hend _ ((List.dropWhile_suffix _).trans (afterWord?_suffix hafter))]
      exact Bool.false_ne_true
  have hscheme : scheme? t = none := by
    unfold scheme?
    cases t with
    | nil => rfl
    | cons c t => simp only [hend _ (List.drop_suffix _ _), Bool.and_false, Bool.false_eq_true, if_false]
  rw [isAllowed, hscript, hscheme]
  rfl

theorem isSafe_of_no_colon {t : Text} (ht : Text.allBlank t = false) (hcolon : ':' ∉ t) :
    isSafe t = true := by
  have htrim : ':' ∉ compact (Text.trim t) := fun hmem =>
    hcolon ((Text.infix_trim t).subset (List.mem_of_mem_filter hmem))
  have hne : (Text.trim t).isEmpty = false := by
    rw [List.isEmpty_eq_false_iff, ne_eq, Text.trim_eq_nil_iff, ht]
    exact Bool.false_ne_true
  rw [isSafe, hne, isAllowed_of_no_colon htrim, Bool.or_true]
  rfl

theorem takeWhile_append_colon {g : Text} (hg : ':' ∉ g) (x : Text) :
    (g ++ ':' :: x).takeWhile (· != ':') = g := by
  have hplain : ∀ c ∈ g, (c != ':') = true := fun c hc => bne_iff_ne.mpr fun h => hg (h ▸ hc)
  rw [List.takeWhile_append_of_pos hplain]
  simp

theorem throughColon_append_colon {g : Text} (hg : ':' ∉ g) (x : Text) :
    throughColon (g ++ ':' :: x) = g ++ [':'] := by
  rw [throughColon, takeWhile_append_colon hg, if_pos (by simp)]

theorem throughColon_of_no_colon {t : Text} (ht : ':' ∉ t) : throughColon t = t := by
  rw [throughColon, if_neg (by simpa using ht), List.append_nil, List.takeWhile_eq_self_iff]
  exact fun c hc => bne_iff_ne.mpr fun h => ht (h ▸ hc)

/-- Only the text up to the first colon is judged. -/
theorem isSafe_throughColon (t : Text) : isSafe (throughColon t) = isSafe t := by
  by_cases ht : ':' ∈ t
  · obtain ⟨g, x, rfl, hg⟩ := List.eq_append_cons_of_mem ht
    rw [throughColon_append_colon hg, isSafe_append_colon g x]
  · rw [throughColon_of_no_colon ht]

end Link

/-! ## The destination that is read -/

namespace Markdown

/-- A destination as written, without the angle brackets around it if it has them. -/
def unbracket : Text → Text
  | '<' :: t => if t.getLast? = some '>' then t.dropLast else '<' :: t
  | t => t

/-- The destination that a reader goes by, from how it is written. -/
def destinationRead (written : Text) : Text := resolve (unbracket written)

/-- The destination is written bare and stands in angle brackets of its own, which a reader takes
for those around a destination. -/
def InOwnBrackets (u : Text) : Prop :=
  u.any endsDestination = false ∧ u.head? = some '<' ∧ u.tail.getLast? = some '>'

instance (u : Text) : Decidable (InOwnBrackets u) := inferInstanceAs (Decidable (_ ∧ _))

/-- A destination without angle brackets of its own. -/
def ownContent (u : Text) : Text := if InOwnBrackets u then u.tail.dropLast else u

/-- A backslash stands before the first colon. -/
def EscapesScheme (u : Text) : Prop := ':' ∈ u ∧ '\\' ∈ u.takeWhile (· != ':')

instance (u : Text) : Decidable (EscapesScheme u) := inferInstanceAs (Decidable (_ ∧ _))

/-- Something before the first colon is markup to a reader, angle brackets or a backslash, and
without it that part is not acceptable. -/
def Disguised (u : Text) : Prop :=
  (InOwnBrackets u ∨ EscapesScheme u) ∧
    Link.isSafe (resolve (Link.throughColon (ownContent u))) = false

instance (u : Text) : Decidable (Disguised u) := inferInstanceAs (Decidable (_ ∧ _))

/-- Nothing is taken off before the first colon: no angle brackets of its own stand around the
destination, and no backslash stands before the colon. -/
structure PlainScheme (u : Text) : Prop where
  brackets : ¬InOwnBrackets u
  escapes : ∀ g x, u = g ++ ':' :: x → ':' ∉ g → '\\' ∉ g

theorem isBlank_of_isPunctuation {c : Char} (h : isPunctuation c = true) :
    Text.isBlank c = false := by
  simp only [isPunctuation, Bool.or_eq_true, Bool.and_eq_true, decide_eq_true_eq] at h
  simp only [Text.isBlank, Bool.or_eq_false_iff, Bool.and_eq_false_iff, decide_eq_false_iff_not,
    beq_eq_false_iff_ne]
  omega

theorem allBlank_of_allBlank_resolve {t : Text} (h : Text.allBlank (resolve t) = true) :
    Text.allBlank t = true := by
  unfold resolve Text.allBlank at *
  fun_induction glyphs t with
  | case1 => rfl
  | case2 c => exact h
  | case3 b c t hescape ih =>
    obtain ⟨_, hc⟩ := Bool.and_eq_true_iff.mp hescape
    rw [List.map_cons, List.all_cons, isBlank_of_isPunctuation hc] at h
    cases h
  | case4 b c t hescape ih =>
    obtain ⟨hb, ht⟩ := Bool.and_eq_true_iff.mp h
    rw [List.all_cons, ih ht, Bool.and_true]
    exact hb

theorem not_mem_resolve {c : Char} (hc : c ≠ '\\') {t : Text} (ht : c ∉ t) : c ∉ resolve t := by
  have hglyphs := (forall_glyphs_iff (p := (· == c)) (beq_false_of_ne (Ne.symm hc)) t).mpr
    fun d hd => beq_false_of_ne fun h => ht (h ▸ hd)
  intro hmem
  obtain ⟨g, hg, rfl⟩ := List.mem_map.mp hmem
  simpa using hglyphs g hg

theorem throughColon_resolve (t : Text) :
    Link.throughColon (resolve t) = resolve (Link.throughColon t) := by
  unfold resolve
  fun_induction glyphs t with
  | case1 => rfl
  | case2 c =>
    by_cases hc : c = ':'
    · subst hc
      rfl
    · simp [Link.throughColon_cons_of_ne hc, Link.throughColon_nil, mark, glyphs]
  | case3 b c t hescape ih =>
    obtain rfl : b = '\\' := by simpa using (Bool.and_eq_true_iff.mp hescape).1
    rw [Link.throughColon_cons_of_ne (by decide), List.map_cons]
    by_cases hc : c = ':'
    · subst hc
      simp [Link.throughColon_cons_colon, glyphs, hescape]
    · simp [Link.throughColon_cons_of_ne hc, glyphs, hescape, ih]
  | case4 b c t hescape ih =>
    rw [List.map_cons]
    by_cases hb : b = ':'
    · subst hb
      simp [Link.throughColon_cons_colon, glyphs, mark]
    · -- The character behind `b` stays, so `b` escapes nothing in the part either.
      obtain ⟨part, hpart⟩ := Link.exists_throughColon_cons c t
      simp only [mark, Link.throughColon_cons_of_ne hb, ih, hpart, glyphs, hescape,
        Bool.false_eq_true, if_false, List.map_cons]

/-- Taking angle brackets off what is written leaves the destination, or what is in its own. -/
theorem unbracket_formatDestination (u : Text) : unbracket (formatDestination u) = ownContent u := by
  unfold formatDestination ownContent
  cases hbare : u.any endsDestination with
  | true =>
    have hnot : ¬InOwnBrackets u := fun h => by simp [InOwnBrackets, hbare] at h
    rw [if_pos rfl, if_neg hnot, List.cons_append, unbracket, if_pos (by simp),
      List.dropLast_concat]
  | false =>
    rw [if_neg Bool.false_ne_true]
    cases u with
    | nil => rfl
    | cons c t =>
      by_cases hc : c = '<'
      · subst hc
        simp [unbracket, InOwnBrackets, hbare]
      · have hnot : ¬InOwnBrackets (c :: t) := fun h => hc (Option.some.inj h.2.1)
        rw [if_neg hnot, unbracket]
        exact fun rest hrest => hc (List.cons.inj hrest).1

/-- Only the part up to the first colon counts, brackets off and escapes resolved. -/
theorem isSafe_read (u : Text) : Link.isSafe (destinationRead (formatDestination u)) =
    Link.isSafe (resolve (Link.throughColon (ownContent u))) := by
  rw [destinationRead, unbracket_formatDestination, ← throughColon_resolve,
    Link.isSafe_throughColon]

/-- A part that shows a reader no markup is judged as it is read. -/
theorem isSafe_read_of_plain {u : Text} (hsafe : Link.isSafe u = true) (hb : ¬InOwnBrackets u)
    (he : ¬EscapesScheme u) :
    Link.isSafe (resolve (Link.throughColon (ownContent u))) = true := by
  rw [ownContent, if_neg hb]
  by_cases hu : ':' ∈ u
  · obtain ⟨g, x, rfl, hg⟩ := List.eq_append_cons_of_mem hu
    have hpart := Link.throughColon_append_colon hg x
    have hplain : '\\' ∉ g ++ [':'] := by
      intro hmem
      refine he ⟨hu, ?_⟩
      rw [Link.takeWhile_append_colon hg]
      simpa using hmem
    rw [hpart, resolve_of_no_backslash hplain, ← hpart, Link.isSafe_throughColon, hsafe]
  · rw [Link.throughColon_of_no_colon hu]
    refine Link.isSafe_of_no_colon (Bool.eq_false_iff.mpr fun hblank => ?_)
      (not_mem_resolve (by decide) hu)
    rw [Link.isSafe, (Text.trim_eq_nil_iff u).mpr (allBlank_of_allBlank_resolve hblank)] at hsafe
    cases hsafe

theorem isSafe_read_iff {u : Text} (hsafe : Link.isSafe u = true) :
    Link.isSafe (destinationRead (formatDestination u)) = true ↔ ¬Disguised u := by
  rw [isSafe_read]
  constructor
  · rintro hread ⟨-, hrejected⟩
    rw [hread] at hrejected
    cases hrejected
  · intro hdisguised
    by_contra hread
    have hrejected := Bool.eq_false_iff.mpr hread
    refine hread (isSafe_read_of_plain hsafe (fun hb => ?_) fun he => ?_)
    · exact hdisguised ⟨.inl hb, hrejected⟩
    · exact hdisguised ⟨.inr he, hrejected⟩

theorem not_disguised_of_plain {u : Text} (h : PlainScheme u) : ¬Disguised u := by
  rintro ⟨hb | ⟨hcolon, hbackslash⟩, -⟩
  · exact h.brackets hb
  · obtain ⟨g, x, rfl, hg⟩ := List.eq_append_cons_of_mem hcolon
    rw [Link.takeWhile_append_colon hg] at hbackslash
    exact h.escapes g x rfl hg hbackslash

end Markdown

/-! ## Links and images -/

namespace Inline

theorem mem_spaceIf {f : Fragment} {b : Buffer} (hf : f ∈ b) (wanted : Bool) :
    f ∈ b.spaceIf wanted := by
  unfold Buffer.spaceIf Buffer.addText
  split
  · exact List.mem_append_left _ hf
  · exact hf

/-- The destination of a link or an image that is written is still safe as a reader takes it, unless
it was disguised; a plain one is not. -/
theorem safe_as_read_iff (scope : Scope) (name : Text) (attrs : Attributes) (cs : List Node)
    (b : Buffer) {u : Text}
    (hu : (Node.element name attrs cs).role = .link ∧ u = hrefOf (.element name attrs cs) ∨
      (Node.element name attrs cs).role = .image ∧ u = sourceOf (.element name attrs cs))
    (hsafe : Link.isSafe u = true) :
    (∃ before after, .markup (before ++ "](".toList ++ formatDestination u ++ after) ∈
      (addNode scope (.element name attrs cs) b).1) ∧
    (Link.isSafe (destinationRead (formatDestination u)) = true ↔ ¬Disguised u) ∧
    (PlainScheme u → ¬Disguised u) := by
  refine ⟨?_, isSafe_read_iff hsafe, not_disguised_of_plain⟩
  rcases hu with ⟨hrole, rfl⟩ | ⟨hrole, rfl⟩
  · rw [addNode_link hrole hsafe]
    exact ⟨_, _, mem_spaceIf (List.mem_append_right _ (List.mem_singleton_self _)) _⟩
  · let n := Node.element name attrs cs
    refine ⟨"![".toList ++ altLabel n, titlePart (n.attributeOrEmpty "title".toList) ++ [')'], ?_⟩
    rw [addNode_image hrole hsafe, imageMarkup_eq hsafe]
    simp only [List.append_assoc]
    exact List.mem_append_right _ (List.mem_singleton_self _)

/-- A destination with an escape behind its scheme. -/
theorem escape_behind_scheme_safe :
    let u := "https://a\\.b".toList
    ¬Disguised u ∧ destinationRead (formatDestination u) = "https://a.b".toList ∧
      Link.isSafe (destinationRead (formatDestination u)) = true := by
  intro u
  obtain ⟨_, hread, _⟩ := safe_as_read_iff [] "a".toList [("href".toList, some u)] [] []
    (.inl ⟨rfl, rfl⟩) (by decide)
  have hdisguised : ¬Disguised u := by decide
  exact ⟨hdisguised, rfl, hread.mpr hdisguised⟩

/-- A backslash keeps the colon out of the scheme that is judged, and a reader drops it. -/
theorem escaped_colon_hides_script :
    let n := Node.element "a".toList [("href".toList, some "javascript\\:x".toList)]
      [.text "l".toList]
    addNode [] n [] = ([.markup "[l](javascript\\:x)".toList], false) ∧
      Link.isSafe (hrefOf n) = true ∧
      destinationRead (formatDestination (hrefOf n)) = "javascript:x".toList ∧
      Link.isSafe (destinationRead (formatDestination (hrefOf n))) = false :=
  ⟨rfl, rfl, rfl, rfl⟩

end Inline

end Hypermark
