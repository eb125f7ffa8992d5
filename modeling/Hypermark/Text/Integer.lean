import Hypermark.Text.Blank

/-!
Integers in text: an optional sign and decimal digits of any script.

Both directions are bounded: a number of more than `digitLimit` digits is neither read nor written.
A number that says how often something is repeated is bounded by `indexLimit`.

* `readInteger_eq_error_iff`: reading fails exactly on a numeral that is too long.
-/

namespace Hypermark

namespace Text

/-- The zeros of the decimal digit rows of Unicode 14; the other nine digits follow each. -/
def digitZeros : List Nat := [
  0x30, 0x660, 0x6f0, 0x7c0, 0x966, 0x9e6, 0xa66, 0xae6, 0xb66, 0xbe6, 0xc66, 0xce6, 0xd66, 0xde6,
  0xe50, 0xed0, 0xf20, 0x1040, 0x1090, 0x17e0, 0x1810, 0x1946, 0x19d0, 0x1a80, 0x1a90, 0x1b50,
  0x1bb0, 0x1c40, 0x1c50, 0xa620, 0xa8d0, 0xa900, 0xa9d0, 0xa9f0, 0xaa50, 0xabf0, 0xff10, 0x104a0,
  0x10d30, 0x11066, 0x110f0, 0x11136, 0x111d0, 0x112f0, 0x11450, 0x114d0, 0x11650, 0x116c0,
  0x11730, 0x118e0, 0x11950, 0x11c50, 0x11d50, 0x11da0, 0x16a60, 0x16ac0, 0x16b50, 0x1d7ce,
  0x1d7d8, 0x1d7e2, 0x1d7ec, 0x1d7f6, 0x1e140, 0x1e2f0, 0x1e950, 0x1fbf0]

/-- The value of a decimal digit of any script. -/
def digit? (c : Char) : Option Nat :=
  (digitZeros.find? fun z => z ≤ c.toNat && c.toNat < z + 10).map (c.toNat - ·)

/-- The values of a text that is all digits and not empty. -/
def digits? : Text → Option (List Nat)
  | [] => none
  | t => t.mapM digit?

end Text

/-- A written integer: its sign and its digits, leading zeros included. -/
structure Numeral where
  negative : Bool
  digits : List Nat

namespace Numeral

def ofText? : Text → Option Numeral
  | '-' :: cs => (Text.digits? cs).map (⟨true, ·⟩)
  | '+' :: cs => (Text.digits? cs).map (⟨false, ·⟩)
  | cs => (Text.digits? cs).map (⟨false, ·⟩)

def magnitude (n : Numeral) : Nat := n.digits.foldl (fun value d => value * 10 + d) 0

def value (n : Numeral) : Int := if n.negative then -(n.magnitude : Int) else n.magnitude

end Numeral

/-- A number out of range: it has more digits than can be read or written, or it is to say how often
something is repeated and is no index. -/
inductive Oversize where
  | reading (digits : Nat)
  | writing
  | index
deriving DecidableEq, Repr

/-- The most digits that a number may have, its sign not counted. -/
def digitLimit : Nat := 4300

/-- The largest index. -/
def indexLimit : Nat := 0x7fffffffffffffff

/-- What comes of repeating something `count` times, which takes an index.  There is always memory
for it. -/
def repeated {α : Type} (count : Nat) (result : α) : Except Oversize α :=
  if count ≤ indexLimit then .ok result else .error .index

namespace Text

/-- The integer that a trimmed text spells, `none` if it spells none. -/
def readInteger (t : Text) : Except Oversize (Option Int) :=
  match Numeral.ofText? (trim t) with
  | none => .ok none
  | some n =>
    if n.digits.length ≤ digitLimit then .ok (some n.value) else .error (.reading n.digits.length)

/-- The decimal digits of a natural number. -/
def ofNat (n : Nat) : Text := Nat.toDigits 10 n

def ofInt (n : Int) : Text := if n < 0 then '-' :: ofNat n.natAbs else ofNat n.natAbs

/-- The integer in decimal notation. -/
def writeInteger (n : Int) : Except Oversize Text :=
  if (ofNat n.natAbs).length ≤ digitLimit then .ok (ofInt n) else .error .writing

/-! ## Lemmas -/

theorem readInteger_eq_error_iff (t : Text) (e : Oversize) :
    readInteger t = .error e ↔
      ∃ n, Numeral.ofText? (trim t) = some n ∧ digitLimit < n.digits.length ∧
        e = .reading n.digits.length := by
  unfold readInteger
  split
  · rename_i h; simp [h]
  · rename_i n h
    split <;> rename_i hn
    · simp only [h, reduceCtorEq, Option.some.injEq, false_iff, not_exists, not_and]
      intro m hm; subst hm; omega
    · simp only [Except.error.injEq, h, Option.some.injEq, exists_eq_left']
      constructor
      · intro he; exact ⟨by omega, he.symm⟩
      · intro he; exact he.2.symm

theorem writeInteger_eq_error_iff (n : Int) (e : Oversize) :
    writeInteger n = .error e ↔ digitLimit < (ofNat n.natAbs).length ∧ e = .writing := by
  unfold writeInteger
  split <;> rename_i h
  · simp only [reduceCtorEq, false_iff, not_and]; omega
  · simp only [Except.error.injEq]
    constructor
    · intro he; exact ⟨by omega, he.symm⟩
    · intro he; exact he.2.symm

end Text

end Hypermark
