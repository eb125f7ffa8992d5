import Hypermark.Document.Attributes
import Hypermark.Traced

/-!
The language of a code block, as its markup tells it.

A name is taken from `data-language` and `data-lang`, or from a class such as `language-x` or
`lang-x`.  It goes into the opening line of a fence only if it is short and has no character that
could end that line.

* `all_isNameChar_safe`: what is written has only harmless characters.
-/

namespace Hypermark.Language

/-! ## Names -/

def longestName : Nat := 50

def isNameChar (c : Char) : Bool :=
  c.isAlphanum || c == '_' || c == '+' || c == '-' || c == '.' || c == '#'

def isSafeName (name : Text) : Bool :=
  name.length ≤ longestName && !name.isEmpty && name.all isNameChar

/-- The trimmed name if it is safe, nothing otherwise. -/
def safe (t : Text) : Text := if isSafeName (Text.trim t) then Text.trim t else []

/-- What is noted when a name is dropped. -/
def notices (t : Text) : List Notice :=
  let name := Text.trim t
  if t.isEmpty then []
  else if longestName < name.length then [.languageTooLong name.length]
  else if isSafeName name then []
  else [.languageUnsafe name]

def sanitize (t : Text) : Traced Text := ⟨notices t, .ok (safe t)⟩

/-! ## Sources -/

def classPrefixes : List Text := ["language-".toList, "lang-".toList]

/-- The language that a class token names. -/
def ofClass? (token : Text) : Option Text :=
  let folded := token.map Char.toLower
  (classPrefixes.find? fun p => p.isPrefixOf folded && p.length < token.length).map
    fun p => token.drop p.length

/-- The first of some attributes that is not blank, trimmed. -/
def ofAttributes? (n : Node) (names : List Text) : Option Text :=
  names.findSome? fun name =>
    let value := Text.trim (n.attributeOrEmpty name)
    if value.isEmpty then none else some value

/-- The language that one element names: an attribute first, then a class. -/
def ofNode? (n : Node) : Option Text :=
  (ofAttributes? n ["data-language".toList, "data-lang".toList]).or (n.classes.findSome? ofClass?)

/-- The language that the first of some elements names. -/
def detect (nodes : List Node) : Traced Text :=
  match nodes.findSome? ofNode? with
  | some t => sanitize t
  | none => Traced.pure []

/-! ## Lemmas -/

theorem all_isNameChar_safe (t : Text) : (safe t).all isNameChar = true := by
  unfold safe
  split
  · rename_i h
    simp only [isSafeName, Bool.and_eq_true] at h
    exact h.2
  · rfl

end Hypermark.Language
