import Hypermark.Text.Case
import Hypermark.Text.PrintableRanges

/-!
The quoted form of a text, as messages show it.

Apostrophes surround the text unless it holds an apostrophe and no double quote; then double quotes
do.  The surrounding quote and the backslash are escaped, and a character without a visible form is
written by its code point.

* `escaped_of_plain`: a visible character that is neither quote nor backslash stands for itself.
-/

namespace Hypermark.Text

def apostrophe : Char := '\x27'

/-- The character shows in print; the space does. -/
def isPrintable (c : Char) : Bool := !inRanges hiddenRanges c

/-- The lower-case hexadecimal digits of `n`, at least `width` of them. -/
def hexadecimal (width n : Nat) : Text := (Nat.toDigits 16 n).leftpad width '0'

def codePoint (c : Char) : Text :=
  let n := c.toNat
  if n < 0x100 then '\\' :: 'x' :: hexadecimal 2 n
  else if n < 0x10000 then '\\' :: 'u' :: hexadecimal 4 n
  else '\\' :: 'U' :: hexadecimal 8 n

/-- One character between the quotes `quote`. -/
def escaped (quote c : Char) : Text :=
  if c = quote || c = '\\' then ['\\', c]
  else if c = '\n' then ['\\', 'n']
  else if c = '\r' then ['\\', 'r']
  else if c = '\t' then ['\\', 't']
  else if isPrintable c then [c]
  else codePoint c

def quoteFor (t : Text) : Char :=
  if t.contains apostrophe && !t.contains '"' then '"' else apostrophe

/-- The text between quotes, with everything in it that could mislead escaped. -/
def quoted (t : Text) : Text :=
  quoteFor t :: t.flatMap (escaped (quoteFor t)) ++ [quoteFor t]

/-! ## Lemmas -/

theorem escaped_of_plain {quote c : Char} (hq : c ≠ quote) (hb : c ≠ '\\')
    (hp : isPrintable c = true) : escaped quote c = [c] := by
  have hn : c ≠ '\n' := by rintro rfl; exact absurd hp (by decide)
  have hr : c ≠ '\r' := by rintro rfl; exact absurd hp (by decide)
  have ht : c ≠ '\t' := by rintro rfl; exact absurd hp (by decide)
  simp [escaped, hq, hb, hn, hr, ht, hp]

end Hypermark.Text
