import Hypermark.Text.Integer
import Hypermark.Text.Quoted

/-!
Values of options as they are handed in, before their type is known.

* `lessThan?_isSome_iff`: exactly the numbers and the truth values compare with a number.
-/

namespace Hypermark

/-- A value of any type; `decimal m e` is `m` divided by ten to the `e`. -/
inductive Value where
  | null
  | bool (b : Bool)
  | int (n : Int)
  | decimal (mantissa : Int) (exponent : Nat)
  | text (t : Text)
  | list (items : List Value)
  | record (fields : List (Text × Value))
deriving Inhabited, Repr

namespace Value

/-- The name of the type of a value, as messages give it. -/
def typeName : Value → Text
  | null => "NoneType".toList
  | bool _ => "bool".toList
  | int _ => "int".toList
  | decimal .. => "float".toList
  | text _ => "str".toList
  | list _ => "list".toList
  | record _ => "dict".toList

/-! ## Display -/

/-- A fraction without zeros at its end. -/
def shortFraction (digits : Text) : Text :=
  match Text.dropEndWhile (· == '0') digits with
  | [] => ['0']
  | ds => ds

/-- A decimal fraction with at least one digit on either side of the point. -/
def decimalText (mantissa : Int) (exponent : Nat) : Text :=
  let digits := (Text.ofNat mantissa.natAbs).leftpad (exponent + 1) '0'
  let whole := digits.take (digits.length - exponent)
  (if mantissa < 0 then ['-'] else []) ++ whole ++
    '.' :: shortFraction (digits.drop (digits.length - exponent))

mutual

/-- The value as messages show it. -/
def display : Value → Text
  | null => "None".toList
  | bool true => "True".toList
  | bool false => "False".toList
  | int n => Text.ofInt n
  | decimal m e => decimalText m e
  | text t => Text.quoted t
  | list items => '[' :: [',', ' '].intercalate (displayAll items) ++ [']']
  | record fields => '\x7b' :: [',', ' '].intercalate (displayFields fields) ++ ['\x7d']

def displayAll : List Value → List Text
  | [] => []
  | v :: vs => display v :: displayAll vs

def displayFields : List (Text × Value) → List Text
  | [] => []
  | (name, v) :: rest => (Text.quoted name ++ [':', ' '] ++ display v) :: displayFields rest

end

/-! ## Reading -/

/-- Whether a value counts as true. -/
def truth : Value → Bool
  | null => false
  | bool b => b
  | int n => n != 0
  | decimal m _ => m != 0
  | text t => !t.isEmpty
  | list items => !items.isEmpty
  | record fields => !fields.isEmpty

/-- The greatest integer that a number reaches; truth values count as zero and one. -/
def floor? : Value → Option Int
  | bool b => some (if b then 1 else 0)
  | int n => some n
  | decimal m e => some (Int.fdiv m (Nat.pow 10 e))
  | _ => none

/-- Whether the value is a number below the integer `bound`; `none` if it is no number. -/
def lessThan? (v : Value) (bound : Int) : Option Bool := v.floor?.map (· < bound)

/-! ## Lemmas -/

theorem lessThan?_isSome_iff (v : Value) (bound : Int) :
    (v.lessThan? bound).isSome = true ↔
      (∃ b, v = bool b) ∨ (∃ n, v = int n) ∨ ∃ m e, v = decimal m e := by
  cases v <;> simp [lessThan?, floor?]

end Value

end Hypermark
