import Hypermark.Text.Letter

/-!
Link safety: which destinations may reach the output.

A destination is safe if it is relative, has no scheme, or has one of five known schemes.  Controls
and spaces inside it do not count, as in a browser, and letters compare without case.

* `isSafe_of_relative`: a relative destination is safe.
-/

namespace Hypermark.Link

/-! ## Schemes -/

def safeSchemes : List Text :=
  ["http".toList, "https".toList, "mailto".toList, "ftp".toList, "tel".toList]

def scriptSchemes : List Text := ["javascript".toList, "vbscript".toList, "data".toList]

def relativePrefixes : List Text := ["#".toList, "/".toList, "./".toList, "../".toList]

/-- A control or space that does not count while the scheme is read. -/
def isNoise (c : Char) : Bool := c.toNat ≤ 0x20 || c.toNat == 0x7F

/-- A scheme that runs scripts or embeds data, with white space allowed before its colon. -/
def hasScriptScheme (t : Text) : Bool :=
  scriptSchemes.any fun scheme =>
    match Text.afterWord? scheme t with
    | some rest => (rest.dropWhile Text.isBlank).head? == some ':'
    | none => false

def isSchemeChar (c : Char) : Bool :=
  Text.isAnyLetter c || c.isDigit || c == '+' || c == '-' || c == '.'

/-- The scheme before the first colon, if the characters up to there form one. -/
def scheme? (t : Text) : Option Text :=
  match t with
  | c :: _ =>
    let scheme := t.takeWhile isSchemeChar
    if Text.isAnyLetter c && (t.drop scheme.length).head? == some ':' then some scheme else none
  | [] => none

/-- The text without the characters that do not count. -/
def compact (t : Text) : Text := t.filter (!isNoise ·)

def isRelative (t : Text) : Bool := relativePrefixes.any (·.isPrefixOf t)

/-- The scheme is on the list; anything without a scheme passes. -/
def isAllowed (t : Text) : Bool :=
  !hasScriptScheme t &&
    match scheme? t with
    | some scheme => safeSchemes.contains (scheme.map Char.toLower)
    | none => true

/-- The destination may be written into a link or an image. -/
def isSafe (url : Text) : Bool :=
  let stripped := Text.trim url
  !stripped.isEmpty && (isRelative stripped || isAllowed (compact stripped))

/-! ## Separators -/

/-- A pipe that stands alone, as between the links of a navigation bar. -/
def isBareSeparator (t : Text) : Bool := Text.trim t == ['|']

/-! ## Lemmas -/

theorem isSafe_of_relative {url : Text} (hne : Text.allBlank url = false)
    (h : isRelative (Text.trim url) = true) : isSafe url = true := by
  have : (Text.trim url).isEmpty = false := by
    rw [List.isEmpty_eq_false_iff]
    intro he
    rw [Text.trim_eq_nil_iff] at he
    rw [he] at hne
    cases hne
  simp [isSafe, this, h]

end Hypermark.Link
