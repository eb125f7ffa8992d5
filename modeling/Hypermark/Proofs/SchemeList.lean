import Hypermark.Proofs.RedirectInline
import Hypermark.Proofs.SchemeVerdict
import Hypermark.Text.Case

/-!
# Schemes on the list

A destination is judged by the scheme that it has once controls and spaces are taken out of it.  The
judgement is stated here by what the text looks like up to its first colon.  Relative destinations are
let through before that, and would come through anyway, since none of them starts with a letter.  So
wherever the noise stands behind the first character, and however much of it there is, the verdict
is the same.

* `RunsScript`, `HasScheme`, `OnList`: what a text looks like that is judged.
* `isAllowed_iff`: the judgement goes by these.
* `lower_mem_safeSchemes_iff`: the look-alikes of letters do not make a scheme that is on the list.
* `safe_iff_onList`: the verdict on a destination.
-/

namespace Hypermark.Link

open Text

/-! ## The look of a scheme -/

/-- The text is the lower-case word when case does not matter. -/
def ReadsAs (word t : Text) : Prop := List.Forall₂ (fun l c => isLetter l c = true) word t

/-- The text starts with a scheme that runs scripts or embeds data, perhaps with white space between
the scheme and its colon. -/
def RunsScript (t : Text) : Prop :=
  ∃ word ∈ scriptSchemes, ∃ scheme gap rest,
    t = scheme ++ gap ++ ':' :: rest ∧ ReadsAs word scheme ∧ allBlank gap = true

/-- The text starts with this scheme and a colon: a letter, and after it letters, digits, plus,
minus and dots. -/
structure HasScheme (t scheme : Text) : Prop where
  begins : ∃ rest, t = scheme ++ ':' :: rest
  letter : scheme.head?.any isAnyLetter = true
  chars : ∀ c ∈ scheme, isSchemeChar c = true

/-- The text does not run scripts and has a scheme from the list, if it has one. -/
def OnList (t : Text) : Prop :=
  ¬RunsScript t ∧ ∀ scheme, HasScheme t scheme → lower scheme ∈ safeSchemes

theorem isSchemeChar_of_isAnyLetter {c : Char} (h : isAnyLetter c = true) :
    isSchemeChar c = true := by
  simp only [isSchemeChar, h, Bool.true_or]

theorem afterWord?_eq_some_iff {word t rest : Text} :
    afterWord? word t = some rest ↔ ∃ s, t = s ++ rest ∧ ReadsAs word s := by
  induction word generalizing t with
  | nil =>
    constructor
    · intro h
      exact ⟨[], Option.some.inj h, .nil⟩
    · rintro ⟨s, rfl, hs⟩
      cases hs
      rfl
  | cons l word ih =>
    cases t with
    | nil =>
      refine iff_of_false nofun ?_
      rintro ⟨s, heq, hs⟩
      cases hs
      cases heq
    | cons c t =>
      rw [afterWord?]
      constructor
      · intro h
        split at h
        · rename_i hc
          obtain ⟨s, rfl, hs⟩ := ih.mp h
          exact ⟨c :: s, rfl, .cons hc hs⟩
        · cases h
      · rintro ⟨s, heq, hs⟩
        cases hs with
        | @cons _ d _ s hd hs =>
          obtain ⟨rfl, rfl⟩ := List.cons.inj heq
          rw [if_pos hd]
          exact ih.mpr ⟨s, rfl, hs⟩

theorem hasScriptScheme_iff {t : Text} : hasScriptScheme t = true ↔ RunsScript t := by
  have hcolon : ∀ r : Text, ((r.dropWhile isBlank).head? == some ':') = true ↔
      ∃ gap rest, r = gap ++ ':' :: rest ∧ allBlank gap = true := by
    intro r
    rw [beq_iff_eq]
    constructor
    · intro h
      obtain ⟨rest, hrest⟩ := List.head?_eq_some_iff.mp h
      refine ⟨r.takeWhile isBlank, rest, ?_, List.all_eq_true.mpr fun c hc =>
        List.mem_takeWhile_imp hc⟩
      rw [← hrest, List.takeWhile_append_dropWhile]
    · rintro ⟨gap, rest, rfl, hgap⟩
      rw [List.dropWhile_append_of_pos (List.all_eq_true.mp hgap)]
      rfl
  unfold hasScriptScheme RunsScript
  rw [List.any_eq_true]
  refine exists_congr fun word => and_congr_right fun _ => ?_
  constructor
  · intro h
    cases hafter : afterWord? word t with
    | none =>
      rw [hafter] at h
      cases h
    | some r =>
      rw [hafter] at h
      obtain ⟨s, rfl, hs⟩ := afterWord?_eq_some_iff.mp hafter
      obtain ⟨gap, rest, rfl, hgap⟩ := (hcolon r).mp h
      exact ⟨s, gap, rest, (List.append_assoc ..).symm, hs, hgap⟩
  · rintro ⟨s, gap, rest, rfl, hs, hgap⟩
    rw [afterWord?_eq_some_iff.mpr ⟨s, List.append_assoc .., hs⟩]
    exact (hcolon _).mpr ⟨gap, rest, rfl, hgap⟩

theorem scheme?_eq_some_iff {t scheme : Text} : scheme? t = some scheme ↔ HasScheme t scheme := by
  have hcolon : isSchemeChar ':' = false := by decide
  constructor
  · intro h
    cases t with
    | nil => cases h
    | cons c t =>
      rw [scheme?] at h
      split at h
      · rename_i hfound
        obtain ⟨hc, hhead⟩ := Bool.and_eq_true_iff.mp hfound
        cases h
        obtain ⟨rest, hrest⟩ := List.head?_eq_some_iff.mp (beq_iff_eq.mp hhead)
        refine ⟨⟨rest, ?_⟩, ?_, fun d hd => List.mem_takeWhile_imp hd⟩
        · rw [← hrest]
          exact (List.prefix_iff_eq_append.mp (List.takeWhile_prefix _)).symm
        · rw [List.takeWhile_cons_of_pos (isSchemeChar_of_isAnyLetter hc)]
          exact hc
      · cases h
  · rintro ⟨⟨rest, rfl⟩, hletter, hchars⟩
    have htake : (scheme ++ ':' :: rest).takeWhile isSchemeChar = scheme := by
      rw [List.takeWhile_append_of_pos hchars, List.takeWhile_cons_of_neg (by simp [hcolon]),
        List.append_nil]
    cases scheme with
    | nil => cases hletter
    | cons c scheme =>
      rw [List.cons_append] at htake ⊢
      rw [scheme?]
      simp only [htake]
      rw [if_pos]
      rw [← List.cons_append, List.drop_left, List.head?_cons, beq_self_eq_true, Bool.and_true]
      exact hletter

/-! ## Lower case -/

/-- A character of a scheme is ASCII or one of the four look-alikes. -/
theorem lookalike_of_isSchemeChar {c : Char} (hc : isSchemeChar c = true)
    (hascii : isAscii c = false) : c ∈ ['İ', 'ı', 'ſ', '\u212A'] := by
  have halnum : c.isAlphanum = false := Bool.eq_false_iff.mpr fun h => by
    rw [isAscii_of_isAlphanum h] at hascii
    cases hascii
  obtain ⟨halpha, hdigit⟩ := Bool.or_eq_false_iff.mp halnum
  have hmark : c ≠ '+' ∧ c ≠ '-' ∧ c ≠ '.' := by
    refine ⟨?_, ?_, ?_⟩ <;> (rintro rfl; cases hascii)
  have hkelvin : c.toNat = 0x212A → c = '\u212A' := fun h => Char.toNat_inj.mp h
  simp only [isSchemeChar, isAnyLetter, lookalike, halpha, hdigit, Bool.or_eq_true,
    Bool.and_eq_true, beq_iff_eq] at hc
  grind

theorem mem_lower {c d : Char} {t : Text} (hc : c ∈ t) (hsigma : c ≠ 'Σ') (hd : d ∈ lowerChar c) :
    d ∈ lower t := by
  suffices h : ∀ before, d ∈ lowerAfter before t from h []
  induction t with
  | nil => cases hc
  | cons e t ih =>
    intro before
    rw [lowerAfter, List.mem_append]
    rcases List.mem_cons.mp hc with rfl | hc
    · rw [if_neg hsigma]
      exact .inl hd
    · exact .inr (ih hc _)

/-- No scheme on the list has a look-alike, or a letter that one becomes in lower case. -/
theorem lookalike_not_listed {c : Char} (hc : c ∈ ['İ', 'ı', 'ſ', '\u212A']) :
    (∃ d ∈ lowerChar c, ∀ w ∈ safeSchemes, d ∉ w) ∧
      c.toLower = c ∧ c ≠ 'Σ' ∧ ∀ w ∈ safeSchemes, c ∉ w := by
  simp only [List.mem_cons, List.not_mem_nil, or_false] at hc
  rcases hc with rfl | rfl | rfl | rfl
  · exact ⟨⟨'\u0307', by decide +kernel⟩, by decide +kernel⟩
  · exact ⟨⟨'ı', by decide +kernel⟩, by decide +kernel⟩
  · exact ⟨⟨'ſ', by decide +kernel⟩, by decide +kernel⟩
  · exact ⟨⟨'k', by decide +kernel⟩, by decide +kernel⟩

/-- The full lower case of a scheme is on the list exactly if its ASCII lower case is. -/
theorem lower_mem_safeSchemes_iff {t : Text} (h : ∀ c ∈ t, isSchemeChar c = true) :
    lower t ∈ safeSchemes ↔ t.map Char.toLower ∈ safeSchemes := by
  by_cases hascii : t.all isAscii = true
  · rw [lower_of_ascii t hascii]
  · rw [List.all_eq_true] at hascii
    push Not at hascii
    obtain ⟨c, hc, hother⟩ := hascii
    obtain ⟨⟨d, hd, hlower⟩, hself, hsigma, hlisted⟩ :=
      lookalike_not_listed (lookalike_of_isSchemeChar (h c hc) (Bool.eq_false_iff.mpr hother))
    refine iff_of_false (fun hmem => hlower _ hmem (mem_lower hc hsigma hd)) fun hmem => ?_
    exact hlisted _ hmem (List.mem_map.mpr ⟨c, hc, hself⟩)

/-- The judgement on a text without noise. -/
theorem isAllowed_iff {t : Text} : isAllowed t = true ↔ OnList t := by
  rw [isAllowed, Bool.and_eq_true, Bool.not_eq_true', ← Bool.not_eq_true, hasScriptScheme_iff, OnList]
  refine and_congr_right fun _ => ?_
  cases hscheme : scheme? t with
  | none =>
    refine iff_of_true rfl fun scheme h => ?_
    rw [scheme?_eq_some_iff.mpr h] at hscheme
    cases hscheme
  | some scheme =>
    have hhas := scheme?_eq_some_iff.mp hscheme
    show safeSchemes.contains (scheme.map Char.toLower) = true ↔ _
    rw [List.contains_iff_mem, ← lower_mem_safeSchemes_iff hhas.chars]
    constructor
    · intro h other hother
      rw [scheme?_eq_some_iff.mpr hother] at hscheme
      cases hscheme
      exact h
    · intro h
      exact h scheme hhas

/-! ## Noise -/

/-- What stands behind the first colon, or behind a text without one, is not judged. -/
theorem isAllowed_append_of_no_colon (t : Text) {w : Text} (hw : ':' ∉ w) :
    isAllowed (t ++ w) = isAllowed t := by
  by_cases ht : ':' ∈ t
  · obtain ⟨g, x, rfl, _⟩ := List.eq_append_cons_of_mem ht
    rw [List.append_assoc, List.cons_append, isAllowed_append_colon, ← isAllowed_append_colon g x]
  · rw [isAllowed_of_no_colon ht, isAllowed_of_no_colon]
    rw [List.mem_append, not_or]
    exact ⟨ht, hw⟩

/-- A relative destination starts with no letter, so it has no scheme. -/
theorem isAllowed_of_isRelative {x : Char} {t : Text} (h : isRelative (x :: t) = true) (s : Text) :
    isAllowed (x :: s) = true := by
  have hx : x = '#' ∨ x = '/' ∨ x = '.' := by
    have hheads : ∀ p ∈ relativePrefixes, p.head? ∈ [some '#', some '/', some '.'] := by decide
    obtain ⟨p, hp, hprefix⟩ := List.any_eq_true.mp h
    have hhead := hheads p hp
    cases p with
    | nil => simp at hhead
    | cons y p =>
      obtain ⟨rfl, _⟩ := List.cons_prefix_cons.mp (List.isPrefixOf_iff_prefix.mp hprefix)
      simpa using hhead
  rcases hx with rfl | rfl | rfl <;> rfl

/-- The verdict on a destination that starts with a character that counts, white space aside. -/
theorem isSafe_eq_isAllowed {before : Text} (hbefore : allBlank before = true) {x : Char}
    (hblank : isBlank x = false) (hnoise : isNoise x = false) (t : Text) :
    isSafe (before ++ x :: t) = isAllowed (x :: compact t) := by
  have hstart : trimStart before = [] := (dropWhile_eq_nil_iff isBlank before).mpr hbefore
  have htrim : trim (before ++ x :: t) = x :: trimEnd t := by
    rw [trim_append_cons hblank, hstart, List.nil_append]
  have hcompact : compact (x :: trimEnd t) = x :: compact (trimEnd t) :=
    List.filter_cons_of_pos (by simp [hnoise])
  have hrelative : (isRelative (x :: trimEnd t) || isAllowed (x :: compact (trimEnd t))) =
      isAllowed (x :: compact (trimEnd t)) := by
    cases hrel : isRelative (x :: trimEnd t) with
    | false => rfl
    | true => rw [isAllowed_of_isRelative hrel, Bool.or_true]
  obtain ⟨w, hw, hwblank⟩ : ∃ w, t = trimEnd t ++ w ∧ allBlank w = true :=
    ⟨_, List.rdropWhile_append_rtakeWhile.symm, List.all_eq_true.mpr fun c hc =>
      List.mem_rtakeWhile_imp hc⟩
  have hcolon : ':' ∉ compact w := fun hmem =>
    absurd (List.all_eq_true.mp hwblank _ (List.mem_of_mem_filter hmem)) (by decide)
  have hend : isAllowed (x :: compact t) = isAllowed (x :: compact (trimEnd t)) := by
    have hsplit : compact t = compact (trimEnd t) ++ compact w := by
      conv => lhs; rw [hw]
      exact List.filter_append ..
    rw [hsplit, ← List.cons_append, isAllowed_append_of_no_colon _ hcolon]
  rw [hend, ← hrelative, isSafe, htrim, hcompact]
  rfl

theorem isBlank_of_trim {u : Text} {x : Char} {r : Text} (h : trim u = x :: r) :
    isBlank x = false := by
  obtain ⟨w, hw⟩ : trim u <+: trimStart u := List.rdropWhile_prefix isBlank (trimStart u)
  have hstop := List.head?_dropWhile_not isBlank u
  rw [← trimStart, ← hw, h] at hstop
  exact hstop

/-- For a destination whose trimmed form starts with a character that counts, the verdict is what the
list says of the trimmed form without its noise.  The relative ones, which are let through before,
are of no account.  Noise behind the first character, in the destination or in its trimmed form, does
not change the verdict, however much is put in. -/
theorem safe_iff_onList {u : Text} {x : Char} {r : Text} (h : trim u = x :: r)
    (hx : isNoise x = false) :
    (isSafe u = true ↔ OnList (compact (trim u))) ∧
      (isRelative (trim u) = true → OnList (compact (trim u))) ∧
      ∀ before s s', allBlank before = true → trim (before ++ x :: s) = trim u →
        compact s' = compact s → isSafe (before ++ x :: s') = isSafe u := by
  have hblank := isBlank_of_trim h
  have hcompact : compact (trim u) = x :: compact r := by
    rw [h]
    exact List.filter_cons_of_pos (by simp [hx])
  have hverdict : isSafe u = isAllowed (compact (trim u)) := by
    rw [← isSafe_trim, hcompact, h]
    exact @isSafe_eq_isAllowed [] rfl x hblank hx r
  refine ⟨by rw [hverdict, isAllowed_iff], fun hrelative => ?_, ?_⟩
  · rw [← isAllowed_iff, hcompact]
    rw [h] at hrelative
    exact isAllowed_of_isRelative hrelative _
  · intro before s s' hbefore htrim hsame
    calc isSafe (before ++ x :: s')
        = isAllowed (x :: compact s') := isSafe_eq_isAllowed hbefore hblank hx s'
      _ = isAllowed (x :: compact s) := by rw [hsame]
      _ = isSafe (before ++ x :: s) := (isSafe_eq_isAllowed hbefore hblank hx s).symm
      _ = isSafe u := by rw [← isSafe_trim, htrim, isSafe_trim]

/-- A script whose name has a long `s` and a tab in it, and the same one with more noise. -/
theorem disguised_script_rejected :
    let u := " java\tſcript:x\u00a0".toList
    trim u = 'j' :: "ava\tſcript:x".toList ∧ isNoise 'j' = false ∧ isSafe u = false ∧
      isSafe " j\x01ava\n\x7fſcript :x\u00a0\x02".toList = false := by
  intro u
  have htrim : trim u = 'j' :: "ava\tſcript:x".toList := by decide
  obtain ⟨hverdict, _, hnoise⟩ := safe_iff_onList htrim (by decide)
  have hunsafe : isSafe u = false := by
    rw [Bool.eq_false_iff, ne_eq, hverdict]
    -- without its noise this is a script with a look-alike in it
    refine fun hlist => hlist.1 ⟨"javascript".toList, by decide, "javaſcript".toList, [],
      "x".toList, by decide, ?_, rfl⟩
    unfold ReadsAs
    decide
  have hsame : compact "\x01ava\n\x7fſcript :x\u00a0\x02".toList =
      compact "ava\tſcript:x\u00a0".toList := by decide +kernel
  have hinner : trim ([' '] ++ 'j' :: "ava\tſcript:x\u00a0".toList) = trim u := by decide +kernel
  refine ⟨htrim, by decide, hunsafe, ?_⟩
  rw [← hunsafe, ← hnoise [' '] _ _ (by decide) hinner hsame]
  exact congrArg isSafe (by decide +kernel)

end Hypermark.Link
