import Hypermark.Markup.EntityTable
import Hypermark.Text.Integer

/-!
Character references: `&name;`, `&#65;` and `&#x41;`.

In text a reference has been told from its surroundings before it comes here.  In an attribute value
`decodeValue` finds the references itself: a name may then lack its semicolon, and of a longer name
the longest known beginning counts.

* `decodeFrom_of_no_ampersand`: a value without `&` stays as it is.
-/

namespace Hypermark.Markup

/-! ## Names -/

/-- A named reference; `bare` says that it is known without its semicolon too. -/
structure Entity where
  name : Text
  bare : Bool
  value : Text

def hexDigit? (c : Char) : Option Nat :=
  if c.isDigit then some (c.toNat - 48)
  else if 'a' ≤ c ∧ c ≤ 'f' then some (c.toNat - 87)
  else if 'A' ≤ c ∧ c ≤ 'F' then some (c.toNat - 55)
  else none

def isHexDigit (c : Char) : Bool := (hexDigit? c).isSome

/-- The number that hexadecimal digits spell. -/
def hexValue (t : Text) : Nat := t.foldl (fun n c => 16 * n + (hexDigit? c).getD 0) 0

/-- The number that ASCII digits spell. -/
def decimalValue (t : Text) : Nat := t.foldl (fun n c => 10 * n + (c.toNat - 48)) 0

/-- An entry of the table. -/
def Entity.ofEntry (entry : Text) : Entity :=
  let name := entry.takeWhile fun c => c != '=' && c != '!'
  let rest := entry.drop name.length
  let points := (rest.drop 1).splitOn '+'
  ⟨name, rest.head? == some '!', points.map fun p => Char.ofNat (hexValue p)⟩

def entities : List Entity :=
  entityEntries.flatMap fun entries => (Text.words entries.toList).map Entity.ofEntry

/-- The characters that a name stands for, given without its semicolon. -/
def named? (name : Text) : Option Text :=
  (entities.find? fun e => e.name == name).map (·.value)

/-- The characters that a name stands for where no semicolon follows. -/
def bareNamed? (name : Text) : Option Text :=
  (entities.find? fun e => e.bare && e.name == name).map (·.value)

/-! ## Numbers -/

/-- What the code points 80 to 9F stand for, a Windows code page; five of them are themselves. -/
def windowsPoints : List Nat := [
  0x20ac, 0x81, 0x201a, 0x192, 0x201e, 0x2026, 0x2020, 0x2021, 0x2c6, 0x2030, 0x160, 0x2039, 0x152,
  0x8d, 0x17d, 0x8f, 0x90, 0x2018, 0x2019, 0x201c, 0x201d, 0x2022, 0x2013, 0x2014, 0x2dc, 0x2122,
  0x161, 0x203a, 0x153, 0x9d, 0x17e, 0x178]

def replacement : Char := '\ufffd'

/-- The character of a numeric reference in text. -/
def pointChar (n : Nat) : Char :=
  if n = 0 || 0x10FFFF < n || (0xD800 ≤ n && n ≤ 0xDFFF) then replacement
  else if 0x80 ≤ n && n ≤ 0x9F then Char.ofNat (windowsPoints.getD (n - 0x80) n)
  else Char.ofNat n

/-- Code points that give nothing in an attribute value: controls and noncharacters. -/
def isVoidPoint (n : Nat) : Bool :=
  (1 ≤ n && n ≤ 8) || n = 0xB || (0xE ≤ n && n ≤ 0x1F) || n = 0x7F || (0xFDD0 ≤ n && n ≤ 0xFDEF) ||
    (n ≤ 0x10FFFF && 0xFFFE ≤ n % 0x10000)

/-- The text of a numeric reference in an attribute value. -/
def pointText (n : Nat) : Text := if isVoidPoint n then [] else [pointChar n]

/-- The number of a reference as written after `#`: decimal digits, or `x` and hexadecimal ones. -/
def number? (t : Text) : Option Text :=
  match t with
  | [] => none
  | c :: cs =>
    if c == 'x' || c == 'X' then
      if (cs.takeWhile isHexDigit).isEmpty then none else some (c :: cs.takeWhile isHexDigit)
    else if (t.takeWhile Char.isDigit).isEmpty then none
    else some (t.takeWhile Char.isDigit)

/-- The value of a number; decimal digits are read within the limit for integers. -/
def numberValue (number : Text) : Except Oversize Nat :=
  match number with
  | 'x' :: ds => .ok (hexValue ds)
  | 'X' :: ds => .ok (hexValue ds)
  | ds =>
    if ds.length ≤ digitLimit then .ok (decimalValue ds) else .error (.reading ds.length)

/-! ## Attribute values -/

/-- A character that cannot be part of a name in an attribute value. -/
def endsName (c : Char) : Bool :=
  c == '\t' || c == '\n' || c == '\x0c' || c == ' ' || c == '<' || c == '&' || c == '#' || c == ';'

/-- The longest beginning of a name, of two or more characters, that is known without semicolon. -/
def longestBare? (name : Text) : Option (Text × Nat) :=
  (List.range (name.length - 1)).findSome? fun i =>
    let n := name.length - i
    (bareNamed? (name.take n)).map (·, n)

/-- The text of a named reference, `closed` by a semicolon or not. -/
def namedText (name : Text) (closed : Bool) : Text :=
  let semicolon := if closed then [';'] else []
  match if closed then named? name else bareNamed? name with
  | some value => value
  | none =>
    match longestBare? name with
    | some (value, n) => value ++ name.drop n ++ semicolon
    | none => '&' :: name ++ semicolon

def semicolonAt (t : Text) : Nat := if t.head? == some ';' then 1 else 0

/-- The reference that starts after an `&`: its text, and how many characters it takes. -/
def valueReference? (t : Text) : Option (Except Oversize Text × Nat) :=
  match t with
  | '#' :: cs =>
    (number? cs).map fun number =>
      ((numberValue number).map pointText,
        1 + number.length + semicolonAt (cs.drop number.length))
  | _ =>
    let name := (t.takeWhile (!endsName ·)).take 32
    if name.isEmpty then none
    else
      let more := semicolonAt (t.drop name.length)
      some (.ok (namedText name (more == 1)), name.length + more)

/-- The value with its references decoded, after `skip` characters that are decoded already. -/
def decodeFrom (skip : Nat) : Text → Except Oversize Text
  | [] => .ok []
  | c :: cs =>
    match skip with
    | k + 1 => decodeFrom k cs
    | 0 =>
      match if c = '&' then valueReference? cs else none with
      | some (value, length) => do
        let here ← value
        let rest ← decodeFrom length cs
        return here ++ rest
      | none => do
        let rest ← decodeFrom 0 cs
        return c :: rest

/-- An attribute value with its references decoded. -/
def decodeValue (t : Text) : Except Oversize Text := decodeFrom 0 t

/-! ## Lemmas -/

theorem decodeFrom_of_no_ampersand {t : Text} (h : '&' ∉ t) : decodeFrom 0 t = .ok t := by
  induction t with
  | nil => rfl
  | cons c cs ih =>
    simp only [List.mem_cons, not_or] at h
    simp [decodeFrom, Ne.symm h.1, ih h.2, bind, Except.bind, pure, Except.pure]

end Hypermark.Markup
