import Hypermark.Text.Integer
import Hypermark.Text.Quoted

/-!
What a conversion reports about its decisions.

* `Notice.topic` names the part of the program that speaks, `Notice.message` what it says.
-/

namespace Hypermark

inductive Notice where
  /-- A document was read by a parser. -/
  | parsed (length : Nat) (parser : Text)
  | linkDropped (destination : Text)
  | imageDropped (source : Text)
  | languageTooLong (length : Nat)
  | languageUnsafe (language : Text)
  /-- A table is written as markup since it holds another one. -/
  | tableNested
  /-- A table has cells over several rows. -/
  | tableExpanded
  /-- A table has cells over several columns. -/
  | tableRowByRow
  /-- A figure was turned into fenced code. -/
  | codeFigure (lines : Nat) (info : Text)
deriving DecidableEq, Repr

namespace Notice

def topic : Notice → Text
  | parsed .. => "llmdocs.dom".toList
  | linkDropped _ | imageDropped _ => "llmdocs.converters.html2markdown".toList
  | languageTooLong _ | languageUnsafe _ => "llmdocs.utils.security".toList
  | tableNested | tableExpanded | tableRowByRow => "llmdocs.converters.tables".toList
  | codeFigure .. => "llmdocs.converters.figures".toList

def message : Notice → Text
  | parsed length parser =>
    "Parsed ".toList ++ Text.ofNat length ++ " characters of HTML with ".toList ++ parser
  | linkDropped destination =>
    "Dropping link with unsafe destination: ".toList ++ Text.quoted destination
  | imageDropped source => "Dropping image with unsafe source: ".toList ++ Text.quoted source
  | languageTooLong length =>
    "Dropping over-long code language identifier (".toList ++ Text.ofNat length ++
      " chars)".toList
  | languageUnsafe language =>
    "Dropping unsafe code language identifier: ".toList ++ Text.quoted language
  | tableNested => "Table contains a nested table; emitting raw HTML".toList
  | tableExpanded => "Rendering table with rowspan cells as an expanded grid".toList
  | tableRowByRow => "Rendering table with colspan cells row by row".toList
  | codeFigure lines info =>
    "Extracted ".toList ++ Text.ofNat lines ++ " code lines from figure (info string ".toList ++
      Text.quoted info ++ ")".toList

end Notice

end Hypermark
