import Hypermark.Document.Node
import Hypermark.Markup.Reference
import Hypermark.Text.Letter
import Hypermark.Text.Quoted

/-!
Tags as they are written: how far a start tag reaches, and what it says.

Scanners work on the text that is left and give what is left after them.

* `splitFirst_shortens`, `attributes_le`, `startTag?_shortens`, `endTag?_shortens`: scanning never
  adds text, and what was found is gone.
-/

namespace Hypermark.Markup

/-! ## Finding -/

/-- The text before the first place where `m` matches, and the text after the match. -/
def splitFirst (m : Text → Option Text) : Text → Option (Text × Text)
  | [] => (m []).map ([], ·)
  | c :: cs =>
    match m (c :: cs) with
    | some rest => some ([], rest)
    | none => (splitFirst m cs).map fun r => (c :: r.1, r.2)

def closingBracket : Text → Option Text
  | '>' :: cs => some cs
  | _ => none

/-- The text up to the next `>` and the text after it. -/
def upToBracket (t : Text) : Option (Text × Text) := splitFirst closingBracket t

/-! ## Gaps -/

/-- White space, or a slash that does not close the tag. -/
def startsGap : Text → Bool
  | '/' :: '>' :: _ => false
  | c :: _ => c == '/' || Text.isBlank c
  | [] => false

/-- The text without the gap at its start. -/
def skipGap : Text → Text
  | [] => []
  | c :: cs => if startsGap (c :: cs) then skipGap cs else c :: cs

/-! ## Attributes -/

/-- The character can continue a tag name. -/
def isNameChar (c : Char) : Bool :=
  !(c == '\t' || c == '\n' || c == '\r' || c == '\x0c' || c == ' ' || c == '/' || c == '>' ||
    c == '\x00')

def isQuote (c : Char) : Bool := c == '"' || c == Text.apostrophe

def closingQuote (quote : Char) : Text → Option Text
  | c :: cs => if c = quote then some cs else none
  | [] => none

/-- The value after its opening quote, both quotes included; `none` if it is not closed. -/
def quotedValue? (quote : Char) (t : Text) : Option (Text × Text) :=
  (splitFirst (closingQuote quote) t).map fun r => (quote :: r.1 ++ [quote], r.2)

def isBareValueChar (c : Char) : Bool := !(c == '>' || Text.isBlank c)

def bareValue (t : Text) : Text × Text := (t.takeWhile isBareValueChar, t.dropWhile isBareValueChar)

/-- The value where an unclosed quote follows: empty if white space comes before the quote, else the
last of several equals signs starts a bare value. -/
def unclosedValue? (severalSigns : Bool) (blanks rest : Text) : Option (Text × Text) :=
  match blanks.getLast? with
  | some blank => some ([], blank :: rest)
  | none => if severalSigns then some (bareValue ('=' :: rest)) else none

/-- The value after an attribute name, quotes included: equals signs and then a quoted or bare value,
with white space anywhere between. -/
def value? (t : Text) : Option (Text × Text) :=
  match t.dropWhile Text.isBlank with
  | '=' :: signs =>
    let after := signs.dropWhile (· == '=')
    let rest := after.dropWhile Text.isBlank
    match rest with
    | [] => some ([], [])
    | c :: cs =>
      if isQuote c then
        (quotedValue? c cs).or
          (unclosedValue? (signs.head? == some '=') (after.takeWhile Text.isBlank) rest)
      else some (bareValue rest)
  | _ => none

/-- An attribute as written: its name, and its value with the quotes. -/
structure WrittenAttribute where
  name : Text
  value : Option Text
deriving DecidableEq, Repr

def isAttributeChar (c : Char) : Bool := !(Text.isBlank c || c == '/' || c == '=' || c == '>')

/-- The character can start an attribute, even if it is an equals sign. -/
def startsAttribute (c : Char) : Bool := !(Text.isBlank c || c == '/' || c == '>')

/-- The attribute at the start of a text, where one is `allowed`. -/
def attribute? (allowed : Bool) (t : Text) : Option (WrittenAttribute × Text) :=
  match t with
  | [] => none
  | c :: cs =>
    if allowed && startsAttribute c then
      let name := c :: cs.takeWhile isAttributeChar
      let rest := cs.dropWhile isAttributeChar
      match value? rest with
      | some (value, rest) => some (⟨name, some value⟩, rest)
      | none => some (⟨name, none⟩, rest)
    else none

/-- A quote, or white space that a tag name may hold. -/
def precedesAttribute (c : Char) : Bool := isQuote c || Text.isBlank c

/-- An attribute may come after `read` and the gap in `rest`, which follows it. -/
def allowsAttribute (read rest : Text) : Bool :=
  startsGap rest || read.getLast?.any precedesAttribute

/-! ## Lengths -/

theorem length_dropWhile_le (p : Char → Bool) (t : Text) : (t.dropWhile p).length ≤ t.length :=
  (List.dropWhile_sublist p).length_le

theorem skipGap_le (t : Text) : (skipGap t).length ≤ t.length := by
  induction t with
  | nil => exact Nat.le_refl _
  | cons c cs ih =>
    unfold skipGap
    split
    · exact Nat.le_succ_of_le ih
    · exact Nat.le_refl _

/-- What a matcher finds is gone from the text. -/
def Shortens (m : Text → Option Text) : Prop := ∀ t rest, m t = some rest → rest.length < t.length

theorem splitFirst_shortens {m : Text → Option Text} (hm : Shortens m) {t content rest : Text}
    (h : splitFirst m t = some (content, rest)) : rest.length < t.length := by
  induction t generalizing content with
  | nil =>
    simp only [splitFirst, Option.map_eq_some_iff, Prod.mk.injEq] at h
    obtain ⟨r, hr, _, rfl⟩ := h
    exact hm _ _ hr
  | cons c cs ih =>
    unfold splitFirst at h
    split at h
    · rename_i r hr
      cases h
      exact hm _ _ hr
    · obtain ⟨r, hr, heq⟩ := Option.map_eq_some_iff.1 h
      cases heq
      exact Nat.lt_succ_of_lt (ih hr)

theorem closingBracket_shortens : Shortens closingBracket := by
  intro t rest h
  unfold closingBracket at h
  split at h
  · cases h; exact Nat.lt_succ_self _
  · cases h

theorem upToBracket_shortens {t content rest : Text} (h : upToBracket t = some (content, rest)) :
    rest.length < t.length := splitFirst_shortens closingBracket_shortens h

theorem closingQuote_shortens (quote : Char) : Shortens (closingQuote quote) := by
  intro t rest h
  unfold closingQuote at h
  split at h
  · split at h
    · cases h; exact Nat.lt_succ_self _
    · cases h
  · cases h

theorem quotedValue?_shortens {quote : Char} {t value rest : Text}
    (h : quotedValue? quote t = some (value, rest)) : rest.length < t.length := by
  obtain ⟨⟨content, r⟩, hr, heq⟩ := Option.map_eq_some_iff.1 h
  cases heq
  exact splitFirst_shortens (closingQuote_shortens quote) hr

theorem bareValue_le (t : Text) : (bareValue t).2.length ≤ t.length := length_dropWhile_le _ t

theorem unclosedValue?_le {severalSigns : Bool} {blanks t value rest : Text}
    (h : unclosedValue? severalSigns blanks t = some (value, rest)) :
    rest.length ≤ t.length + 1 := by
  unfold unclosedValue? at h
  split at h
  · cases h; exact Nat.le_refl _
  · split at h
    · injection h with h
      have hb := bareValue_le ('=' :: t)
      rw [h] at hb
      exact hb
    · cases h

theorem value?_le {t value rest : Text} (h : value? t = some (value, rest)) :
    rest.length ≤ t.length := by
  have ht := length_dropWhile_le Text.isBlank t
  unfold value? at h
  split at h
  · rename_i signs hs
    rw [hs, List.length_cons] at ht
    have ha := length_dropWhile_le (· == '=') signs
    have hr := length_dropWhile_le Text.isBlank (signs.dropWhile (· == '='))
    dsimp only at h
    split at h
    · cases h; exact Nat.zero_le _
    · rename_i c cs hcs
      rw [hcs] at h hr
      split at h
      · rcases Option.or_eq_some_iff.1 h with h | ⟨_, h⟩
        · have := quotedValue?_shortens h
          simp only [List.length_cons] at hr
          omega
        · have := unclosedValue?_le h
          omega
      · injection h with h
        have hb := bareValue_le (c :: cs)
        rw [h] at hb
        dsimp only at hb
        omega
  · cases h

theorem attribute?_shortens {allowed : Bool} {t rest : Text} {a : WrittenAttribute}
    (h : attribute? allowed t = some (a, rest)) : rest.length < t.length := by
  unfold attribute? at h
  split at h
  · cases h
  · rename_i c cs
    have hd := length_dropWhile_le isAttributeChar cs
    split at h
    · dsimp only at h
      split at h
      · rename_i v r hv
        cases h
        have := value?_le hv
        simp only [List.length_cons]
        omega
      · cases h
        simp only [List.length_cons]
        omega
    · cases h

/-! ## Start tags -/

/-- The attributes at the start of a text, where one is `allowed`, and the text after them. -/
def attributes (allowed : Bool) (t : Text) : List WrittenAttribute × Text :=
  match _h : attribute? allowed t with
  | some (a, rest) =>
    let more := attributes (allowsAttribute (a.value.getD a.name) rest) (skipGap rest)
    (a :: more.1, more.2)
  | none => ([], t)
termination_by t.length
decreasing_by exact Nat.lt_of_le_of_lt (skipGap_le rest) (attribute?_shortens _h)

/-- How a start tag ends. -/
inductive TagEnd where
  | plain
  /-- With a slash before its bracket. -/
  | closed
  /-- Before a character that has no place in a tag, so that it is no tag. -/
  | broken
deriving DecidableEq, Repr

/-- A start tag as written. -/
structure WrittenTag where
  name : Text
  attributes : List WrittenAttribute
  ending : TagEnd
deriving Repr

/-- The start tag in a text that comes after `<`; `none` if the text may go on within the tag. -/
def startTag? (t : Text) : Option (WrittenTag × Text) :=
  let name := t.takeWhile isNameChar
  let rest := t.dropWhile isNameChar
  let read := attributes (allowsAttribute name rest) (skipGap rest)
  match read.2 with
  | [] => none
  | '>' :: rest => some (⟨name, read.1, .plain⟩, rest)
  | '/' :: '>' :: rest => some (⟨name, read.1, .closed⟩, rest)
  | c :: rest => if c == '=' || c.isAlpha then none else some (⟨name, read.1, .broken⟩, c :: rest)

/-- What a start tag says; `closed` tells that it ends in `/>`. -/
structure StartTag where
  name : Text
  attributes : Attributes
  closed : Bool
deriving Repr

/-- A value without the quotes around it. -/
def unquote (value : Text) : Text :=
  match value with
  | c :: cs => if isQuote c && cs.getLast? == some c then cs.dropLast else value
  | [] => []

/-- An attribute as it enters the tree: a name in lower case, a missing value being empty. -/
def WrittenAttribute.read (a : WrittenAttribute) : Except Oversize (Text × Option Text) := do
  let value ← decodeValue (unquote (a.value.getD []))
  return (Text.lower a.name, some value)

/-- Reads a tag; its attributes are read even if it turns out to be none. -/
def WrittenTag.read (tag : WrittenTag) : Except Oversize (Option StartTag) := do
  let attrs ← tag.attributes.mapM WrittenAttribute.read
  match tag.ending with
  | .plain => return some ⟨Text.lower tag.name, attrs, false⟩
  | .closed => return some ⟨Text.lower tag.name, attrs, true⟩
  | .broken => return none

/-! ## End tags -/

def isEndNameChar (c : Char) : Bool :=
  c.isAlphanum || c == '-' || c == '.' || c == ':' || c == '_'

/-- A plain end tag at the start of a text, coming after `</`: its name and what follows it. -/
def endTag? (t : Text) : Option (Text × Text) :=
  match t.dropWhile Text.isBlank with
  | c :: cs =>
    if c.isAlpha then
      let name := c :: cs.takeWhile isEndNameChar
      (closingBracket ((cs.dropWhile isEndNameChar).dropWhile Text.isBlank)).map
        fun rest => (Text.lower name, rest)
    else none
  | [] => none

/-- What follows the end tag of the raw element `name` at the start of a text. -/
def rawEnd? (name : Text) (t : Text) : Option Text :=
  match t with
  | '<' :: '/' :: cs =>
    (Text.afterWord? name (cs.dropWhile Text.isBlank)).bind fun rest =>
      closingBracket (rest.dropWhile Text.isBlank)
  | _ => none

/-! ## Lengths of tags -/

theorem attributes_le (allowed : Bool) (t : Text) : (attributes allowed t).2.length ≤ t.length := by
  fun_induction attributes allowed t with
  | case1 allowed t a rest h more ih =>
    have := attribute?_shortens h
    have := skipGap_le rest
    change (attributes _ (skipGap rest)).2.length ≤ t.length
    omega
  | case2 => exact Nat.le_refl _

theorem startTag?_le {t rest : Text} {tag : WrittenTag} (h : startTag? t = some (tag, rest)) :
    rest.length ≤ t.length := by
  have hname := length_dropWhile_le isNameChar t
  have hgap := skipGap_le (t.dropWhile isNameChar)
  have hread := attributes_le
    (allowsAttribute (t.takeWhile isNameChar) (t.dropWhile isNameChar))
    (skipGap (t.dropWhile isNameChar))
  unfold startTag? at h
  dsimp only at h
  split at h
  · cases h
  · rename_i heq
    cases h
    rw [heq] at hread
    simp only [List.length_cons] at hread
    omega
  · rename_i heq
    cases h
    rw [heq] at hread
    simp only [List.length_cons] at hread
    omega
  · rename_i heq
    split at h
    · cases h
    · cases h
      rw [heq] at hread
      omega

theorem endTag?_shortens {t name rest : Text} (h : endTag? t = some (name, rest)) :
    rest.length < t.length := by
  have ht := length_dropWhile_le Text.isBlank t
  unfold endTag? at h
  split at h
  · rename_i c cs hc
    rw [hc, List.length_cons] at ht
    split at h
    · obtain ⟨r, hr, heq⟩ := Option.map_eq_some_iff.1 h
      cases heq
      have := closingBracket_shortens _ _ hr
      have := length_dropWhile_le isEndNameChar cs
      have := length_dropWhile_le Text.isBlank (cs.dropWhile isEndNameChar)
      omega
    · cases h
  · cases h

theorem rawEnd?_shortens (name : Text) : Shortens (rawEnd? name) := by
  intro t rest h
  unfold rawEnd? at h
  split at h
  · rename_i cs
    obtain ⟨r, hr, hb⟩ := Option.bind_eq_some_iff.1 h
    have := closingBracket_shortens _ _ hb
    have := length_dropWhile_le Text.isBlank r
    have := Text.afterWord?_le hr
    have := length_dropWhile_le Text.isBlank cs
    simp only [List.length_cons]
    omega
  · cases h

end Hypermark.Markup
