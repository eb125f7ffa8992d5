import Hypermark.Document.Serialize
import Hypermark.Fault
import Hypermark.Markup.Tag

/-!
Markup as a sequence of tokens.

The text is read in two passes.  The first stops where a construct is cut off by the end of the text;
the second starts there, takes such a construct as plain characters and goes on.  What the second
pass leaves is plain characters too, except inside `script` and `style`, where text without an end
tag is dropped.

* `stepIn_shortens`: every construct takes at least one character, so a pass ends.
-/

namespace Hypermark.Markup

inductive Token where
  | data (t : Text)
  | startTag (tag : StartTag)
  | endTag (name : Text)
  | comment (t : Text)
  | directive (kind : Directive) (t : Text)
deriving Repr

/-- What a construct in the text turns out to be. -/
inductive Step where
  /-- Reading goes on after the tokens, inside a raw element if one is named. -/
  | next (tokens : List Token) (raw : Option Text) (rest : Text)
  /-- The pass ends here. -/
  | stop (tokens : List Token) (rest : Text)
  /-- The construct is cut off. -/
  | incomplete

/-! ## Constructs that start with a bracket -/

/-- A start tag; the text comes after `<`. -/
def startTagStep (t : Text) : Except Fault Step :=
  match startTag? t with
  | none => .ok .incomplete
  | some (written, rest) =>
    match written.read with
    | .error size => .error (.oversize size)
    | .ok none => .ok (.next [.data ('<' :: t.take (t.length - rest.length))] none rest)
    | .ok (some tag) =>
      let raw := if !tag.closed && Node.isRaw tag.name then some tag.name else none
      .ok (.next [.startTag tag] raw rest)

/-- What is no plain end tag: `content` comes after `</` and before the first `>`, which `rest`
follows. -/
def oddEndTagStep (t content rest : Text) : Step :=
  match t with
  | [] => .incomplete
  | c :: _ =>
    if c.isAlpha then
      match upToBracket (skipGap (t.dropWhile isNameChar)) with
      | some (_, rest) => .next [.endTag (Text.lower (t.takeWhile isNameChar))] none rest
      | none => .incomplete
    else if content.isEmpty then .next [] none rest
    else .next [.comment content] none rest

/-- An end tag, or what stands for one; the text comes after `</`. -/
def endTagStep (t : Text) : Step :=
  match upToBracket t with
  | none => .incomplete
  | some (content, rest) =>
    match endTag? t with
    | some (name, rest) => .next [.endTag name] none rest
    | none => oddEndTagStep t content rest

def commentEnd : Text → Option Text
  | '-' :: '-' :: cs => closingBracket (cs.dropWhile Text.isBlank)
  | _ => none

/-- A comment; the text comes after its opening. -/
def commentStep (t : Text) : Step :=
  match splitFirst commentEnd t with
  | some (content, rest) => .next [.comment content] none rest
  | none => .incomplete

/-- The end of a marked section: one or two closing square brackets and `>`. -/
def sectionEnd (double : Bool) : Text → Option Text
  | ']' :: cs =>
    if double then
      match cs.dropWhile Text.isBlank with
      | ']' :: cs => closingBracket (cs.dropWhile Text.isBlank)
      | _ => none
    else closingBracket (cs.dropWhile Text.isBlank)
  | _ => none

def isSectionNameChar (c : Char) : Bool :=
  c.isAlphanum || c == '-' || c == '_' || c == '.'

/-- Whether a marked section of a kind is closed by two square brackets; `none` if there is no such
kind. -/
def closesDouble? (keyword : Text) : Option Bool :=
  if (["temp", "cdata", "ignore", "include", "rcdata"].map String.toList).contains keyword then
    some true
  else if (["if", "else", "endif"].map String.toList).contains keyword then some false
  else none

/-- The content of a marked section as a token. -/
def sectionToken (content : Text) : Token :=
  if (Text.upper content).take 6 == "CDATA[".toList then .directive .cdata (content.drop 6)
  else .directive .declaration content

/-- A marked section; the text comes after `<![`. -/
def sectionStep (t : Text) : Except Fault Step :=
  match t with
  | [] => .ok .incomplete
  | c :: cs =>
    if c.isAlpha then
      let name := c :: cs.takeWhile isSectionNameChar
      let rest := cs.dropWhile isSectionNameChar
      if Text.allBlank rest then .ok .incomplete
      else
        match closesDouble? (Text.lower name) with
        | none => .error (.markup (.unknownSection (name ++ rest.takeWhile Text.isBlank)))
        | some double =>
          match splitFirst (sectionEnd double) t with
          | some (content, rest) => .ok (.next [sectionToken content] none rest)
          | none => .ok .incomplete
    else .error (.markup (.nameExpected (("<![".toList ++ t).take 20)))

/-- A doctype, or a comment in disguise; the text comes after `<!`. -/
def declarationStep (t : Text) : Step :=
  match upToBracket t with
  | none => .incomplete
  | some (content, rest) =>
    if (t.take 7).map Char.toLower == "doctype".toList then
      .next [.directive .doctype (content.drop 8)] none rest
    else .next [.comment content] none rest

/-- A processing instruction; the text comes after `<?`. -/
def instructionStep (t : Text) : Step :=
  match upToBracket t with
  | some (content, rest) => .next [.directive .instruction content] none rest
  | none => .incomplete

/-- What starts with `<`; the text comes after it. -/
def bracketStep (t : Text) : Except Fault Step :=
  match t with
  | [] => .ok (.stop [] ['<'])
  | '/' :: cs => .ok (endTagStep cs)
  | '!' :: '-' :: '-' :: cs => .ok (commentStep cs)
  | '!' :: '[' :: cs => sectionStep cs
  | '!' :: cs => .ok (declarationStep cs)
  | '?' :: cs => .ok (instructionStep cs)
  | c :: cs => if c.isAlpha then startTagStep (c :: cs) else .ok (.next [.data ['<']] none (c :: cs))

/-- A construct that is cut off and starts with `c`, as plain characters: up to the next `>`, or else
before the next `<`, or else the character alone. -/
def asData (c : Char) (cs : Text) : Text × Text :=
  match upToBracket cs with
  | some (content, rest) => (c :: content ++ ['>'], rest)
  | none =>
    if cs.contains '<' then (c :: cs.takeWhile (· != '<'), cs.dropWhile (· != '<')) else ([c], cs)

/-! ## References -/

/-- The text without a semicolon at its start. -/
def dropSemicolon (t : Text) : Text := t.drop (semicolonAt t)

/-- What starts with `&#` but is no reference; the text comes after it. -/
def noNumberStep (t : Text) : Step :=
  if t.contains ';' then .stop [.data ['&', '#']] t else .stop [] ('&' :: '#' :: t)

/-- What starts with `&#`; the text comes after it.  A number at the end of the text or right before
a hexadecimal digit is no reference. -/
def numberStep (t : Text) : Except Fault Step :=
  match number? t with
  | none => .ok (noNumberStep t)
  | some number =>
    let rest := t.drop number.length
    if rest.isEmpty || rest.head?.any isHexDigit then .ok (noNumberStep t)
    else
      match numberValue number with
      | .error size => .error (.oversize size)
      | .ok n => .ok (.next [.data [pointChar n]] none (dropSemicolon rest))

def isEntityNameChar (c : Char) : Bool := c.isAlphanum || c == '-' || c == '.'

/-- The characters of a named reference in text; one that is unknown loses its semicolon. -/
def entityText (name : Text) : Text := (named? name).getD ('&' :: name)

/-- The name of a reference.  The character after it must be there and be no letter or digit, so
marks at the end of a name may be left out of it. -/
def entityName? (t : Text) : Option Text :=
  let name := t.takeWhile isEntityNameChar
  if (t.dropWhile isEntityNameChar).isEmpty then
    let short := (Text.dropEndWhile Char.isAlphanum name).dropLast
    if short.isEmpty then none else some short
  else some name

/-- What starts with `&` and a letter; the text comes after `&`. -/
def entityStep (final : Bool) (t : Text) : Step :=
  match entityName? t with
  | some name => .next [.data (entityText name)] none (dropSemicolon (t.drop name.length))
  | none => if final && t.length = 1 then .stop [] t else .stop [] ('&' :: t)

/-- What starts with `&`; the text comes after it. -/
def ampersandStep (final : Bool) (t : Text) : Except Fault Step :=
  match t with
  | [] => .ok (.stop [] ['&'])
  | '#' :: cs => numberStep cs
  | c :: cs =>
    if c.isAlpha then .ok (entityStep final (c :: cs)) else .ok (.next [.data ['&']] none (c :: cs))

/-! ## Steps -/

/-- The end of the raw element `name`.  An end tag that only looks like its own is text. -/
def rawStep (name t : Text) : Step :=
  match splitFirst (rawEnd? name) t with
  | none => .stop [] t
  | some (content, rest) =>
    let before := if content.isEmpty then [] else [Token.data content]
    let tag := t.drop content.length
    if (endTag? (tag.drop 2)).isSome then .next (before ++ [.endTag name]) none rest
    else .next (before ++ [.data (tag.take (tag.length - rest.length))]) (some name) rest

/-- The character is data, whatever follows it. -/
def isPlain (c : Char) : Bool := c != '<' && c != '&'

/-- What comes next in the text. -/
def step (final : Bool) (t : Text) : Except Fault Step :=
  match t with
  | [] => .ok (.stop [] [])
  | '<' :: cs => bracketStep cs
  | '&' :: cs => ampersandStep final cs
  | c :: cs => .ok (.next [.data (c :: cs.takeWhile isPlain)] none (cs.dropWhile isPlain))

/-- What comes next in the text, inside the raw element `raw` if there is one. -/
def stepIn (raw : Option Text) (final : Bool) (t : Text) : Except Fault Step :=
  match raw with
  | some name => .ok (rawStep name t)
  | none => step final t

/-! ## Lengths -/

/-- A step on `t` leaves a shorter text if reading goes on. -/
def Step.Shortens (s : Step) (t : Text) : Prop :=
  ∀ tokens raw rest, s = .next tokens raw rest → rest.length < t.length

namespace Step

theorem shortens_next {tokens : List Token} {raw : Option Text} {rest t : Text}
    (h : rest.length < t.length) : (next tokens raw rest).Shortens t := by
  intro _ _ _ heq; cases heq; exact h

theorem shortens_stop (tokens : List Token) (rest t : Text) : (stop tokens rest).Shortens t := by
  intro _ _ _ heq; cases heq

theorem shortens_incomplete (t : Text) : incomplete.Shortens t := by
  intro _ _ _ heq; cases heq

theorem Shortens.cons {s : Step} {t : Text} (h : s.Shortens t) (c : Char) : s.Shortens (c :: t) :=
  fun _ _ _ heq => Nat.lt_succ_of_lt (h _ _ _ heq)

end Step

open Step

theorem startTagStep_shortens {t : Text} {s : Step} (h : startTagStep t = .ok s) :
    s.Shortens ('<' :: t) := by
  unfold startTagStep at h
  split at h
  · cases h; exact shortens_incomplete _
  · rename_i written rest hs
    have hle := Nat.lt_succ_of_le (startTag?_le hs)
    split at h <;> cases h <;> exact shortens_next hle

theorem endTagStep_shortens (t : Text) : (endTagStep t).Shortens t := by
  unfold endTagStep
  split
  · exact shortens_incomplete _
  · rename_i content rest hu
    split
    · rename_i hn
      exact shortens_next (endTag?_shortens hn)
    · unfold oddEndTagStep
      split
      · exact shortens_incomplete _
      · rename_i c cs _
        split
        · split
          · rename_i ho
            have := upToBracket_shortens ho
            have := skipGap_le ((c :: cs).dropWhile isNameChar)
            have := length_dropWhile_le isNameChar (c :: cs)
            exact shortens_next (by omega)
          · exact shortens_incomplete _
        · split <;> exact shortens_next (upToBracket_shortens hu)

theorem commentEnd_shortens : Shortens commentEnd := by
  intro t rest h
  unfold commentEnd at h
  split at h
  · rename_i cs
    have := closingBracket_shortens _ _ h
    have := length_dropWhile_le Text.isBlank cs
    simp only [List.length_cons]
    omega
  · cases h

theorem commentStep_shortens (t : Text) : (commentStep t).Shortens t := by
  unfold commentStep
  split
  · rename_i hs
    exact shortens_next (splitFirst_shortens commentEnd_shortens hs)
  · exact shortens_incomplete _

theorem sectionEnd_shortens (double : Bool) : Shortens (sectionEnd double) := by
  intro t rest h
  unfold sectionEnd at h
  split at h
  · rename_i cs
    have hd := length_dropWhile_le Text.isBlank cs
    simp only [List.length_cons]
    split at h
    · split at h
      · rename_i ds heq
        have := closingBracket_shortens _ _ h
        have := length_dropWhile_le Text.isBlank ds
        rw [heq, List.length_cons] at hd
        omega
      · cases h
    · have := closingBracket_shortens _ _ h
      omega
  · cases h

theorem sectionStep_shortens {t : Text} {s : Step} (h : sectionStep t = .ok s) : s.Shortens t := by
  unfold sectionStep at h
  split at h
  · cases h; exact shortens_incomplete _
  · split at h
    · dsimp only at h
      split at h
      · cases h; exact shortens_incomplete _
      · split at h
        · cases h
        · split at h
          · rename_i hs
            cases h
            exact shortens_next (splitFirst_shortens (sectionEnd_shortens _) hs)
          · cases h; exact shortens_incomplete _
    · cases h

theorem declarationStep_shortens (t : Text) : (declarationStep t).Shortens t := by
  unfold declarationStep
  split
  · exact shortens_incomplete _
  · rename_i hu
    split <;> exact shortens_next (upToBracket_shortens hu)

theorem instructionStep_shortens (t : Text) : (instructionStep t).Shortens t := by
  unfold instructionStep
  split
  · rename_i hu
    exact shortens_next (upToBracket_shortens hu)
  · exact shortens_incomplete _

theorem bracketStep_shortens {t : Text} {s : Step} (h : bracketStep t = .ok s) :
    s.Shortens ('<' :: t) := by
  unfold bracketStep at h
  split at h
  · cases h; exact shortens_stop _ _ _
  · cases h; exact ((endTagStep_shortens _).cons _).cons _
  · cases h; exact ((((commentStep_shortens _).cons _).cons _).cons _).cons _
  · exact (((sectionStep_shortens h).cons _).cons _).cons _
  · cases h; exact ((declarationStep_shortens _).cons _).cons _
  · cases h; exact ((instructionStep_shortens _).cons _).cons _
  · split at h
    · exact startTagStep_shortens h
    · cases h; exact shortens_next (Nat.lt_succ_self _)

theorem dropSemicolon_le (t : Text) : (dropSemicolon t).length ≤ t.length :=
  (List.drop_sublist _ t).length_le

theorem noNumberStep_shortens (t u : Text) : (noNumberStep t).Shortens u := by
  unfold noNumberStep
  split <;> exact shortens_stop _ _ _

theorem numberStep_shortens {t : Text} {s : Step} (h : numberStep t = .ok s) :
    s.Shortens ('#' :: t) := by
  unfold numberStep at h
  split at h
  · cases h; exact noNumberStep_shortens _ _
  · rename_i number _
    dsimp only at h
    split at h
    · cases h; exact noNumberStep_shortens _ _
    · split at h
      · cases h
      · cases h
        refine shortens_next (Nat.lt_succ_of_le (Nat.le_trans (dropSemicolon_le _) ?_))
        exact (List.drop_sublist _ t).length_le

theorem entityStep_shortens (final : Bool) (t : Text) : (entityStep final t).Shortens ('&' :: t) := by
  unfold entityStep
  split
  · refine shortens_next (Nat.lt_succ_of_le (Nat.le_trans (dropSemicolon_le _) ?_))
    exact (List.drop_sublist _ t).length_le
  · split <;> exact shortens_stop _ _ _

theorem ampersandStep_shortens {final : Bool} {t : Text} {s : Step}
    (h : ampersandStep final t = .ok s) : s.Shortens ('&' :: t) := by
  unfold ampersandStep at h
  split at h
  · cases h; exact shortens_stop _ _ _
  · exact (numberStep_shortens h).cons _
  · split at h
    · cases h; exact entityStep_shortens _ _
    · cases h; exact shortens_next (Nat.lt_succ_self _)

theorem step_shortens {final : Bool} {t : Text} {s : Step} (h : step final t = .ok s) :
    s.Shortens t := by
  unfold step at h
  split at h
  · cases h; exact shortens_stop _ _ _
  · exact bracketStep_shortens h
  · exact ampersandStep_shortens h
  · cases h
    exact shortens_next (Nat.lt_succ_of_le (length_dropWhile_le isPlain _))

theorem rawStep_shortens (name t : Text) : (rawStep name t).Shortens t := by
  unfold rawStep
  split
  · exact shortens_stop _ _ _
  · rename_i hs
    have := splitFirst_shortens (rawEnd?_shortens name) hs
    dsimp only
    split <;> exact shortens_next this

theorem stepIn_shortens {raw inside : Option Text} {final : Bool} {t rest : Text}
    {tokens : List Token} (h : stepIn raw final t = .ok (.next tokens inside rest)) :
    rest.length < t.length := by
  unfold stepIn at h
  split at h
  · injection h with h
    exact rawStep_shortens _ _ _ _ _ h
  · exact step_shortens h _ _ _ rfl

theorem asData_le (c : Char) (cs : Text) : (asData c cs).2.length ≤ cs.length := by
  unfold asData
  split
  · rename_i hu
    exact Nat.le_of_lt (upToBracket_shortens hu)
  · split
    · exact length_dropWhile_le _ cs
    · exact Nat.le_refl _

/-! ## Passes -/

/-- Where a pass ends: its tokens, the raw element it is in, and the text it leaves. -/
structure Pass where
  tokens : List Token
  raw : Option Text
  rest : Text

/-- The pass with tokens before its own. -/
def Pass.after (tokens : List Token) (p : Pass) : Pass := { p with tokens := tokens ++ p.tokens }

/-- One pass over a text; `final` says that nothing comes after the text. -/
def pass (final : Bool) (raw : Option Text) (t : Text) : Except Fault Pass :=
  match t with
  | [] => .ok ⟨[], raw, []⟩
  | c :: cs =>
    match _h : stepIn raw final (c :: cs) with
    | .error fault => .error fault
    | .ok (.stop tokens rest) => .ok ⟨tokens, raw, rest⟩
    | .ok (.next tokens inside rest) => (pass final inside rest).map (Pass.after tokens)
    | .ok .incomplete =>
      if final then
        (pass final raw (asData c cs).2).map (Pass.after [.data (asData c cs).1])
      else .ok ⟨[], raw, c :: cs⟩
termination_by t.length
decreasing_by
  · exact stepIn_shortens _h
  · exact Nat.lt_succ_of_le (asData_le c cs)

/-- The tokens of a text. -/
def tokens (t : Text) : Except Fault (List Token) := do
  let first ← pass false none t
  let second ← pass true first.raw first.rest
  let left := if second.raw.isNone && !second.rest.isEmpty then [Token.data second.rest] else []
  return first.tokens ++ second.tokens ++ left

end Hypermark.Markup
