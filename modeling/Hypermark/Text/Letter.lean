import Hypermark.Text.Blank

/-!
ASCII letters compared without case.

Four characters outside ASCII have an ASCII letter as their other case and count as that letter:
the dotted capital and the dotless small `i`, the long `s` and the Kelvin sign.

* `afterWord?_self`: a word in lower case starts with itself.
-/

namespace Hypermark.Text

/-- The characters that count as the ASCII letter `i`, `s` or `k` when case does not matter. -/
def lookalike (letter c : Char) : Bool :=
  (letter == 'i' && (c == 'İ' || c == 'ı')) || (letter == 's' && c == 'ſ') ||
    (letter == 'k' && c.toNat == 0x212A)

/-- `c` is the lower-case ASCII letter `letter` when case does not matter. -/
def isLetter (letter c : Char) : Bool := c.toLower == letter || lookalike letter c

/-- `c` is a letter from a to z when case does not matter. -/
def isAnyLetter (c : Char) : Bool :=
  c.isAlpha || lookalike 'i' c || lookalike 's' c || lookalike 'k' c

/-- What follows the word `word` (in lower case) at the start of a text. -/
def afterWord? : (word : Text) → Text → Option Text
  | [], t => some t
  | _ :: _, [] => none
  | w :: ws, c :: cs => if isLetter w c then afterWord? ws cs else none

/-! ## Lemmas -/

theorem isLetter_self {c : Char} (h : c.toLower = c) : isLetter c c = true := by
  simp [isLetter, h]

theorem afterWord?_le {word t rest : Text} (h : afterWord? word t = some rest) :
    rest.length ≤ t.length := by
  induction word generalizing t with
  | nil => cases h; exact Nat.le_refl _
  | cons w ws ih =>
    cases t with
    | nil => cases h
    | cons c cs =>
      unfold afterWord? at h
      split at h
      · exact Nat.le_succ_of_le (ih h)
      · cases h

theorem afterWord?_self {word : Text} (h : ∀ c ∈ word, c.toLower = c) (t : Text) :
    afterWord? word (word ++ t) = some t := by
  induction word with
  | nil => rfl
  | cons c cs ih =>
    have hc := isLetter_self (h c (List.mem_cons_self ..))
    simp [afterWord?, hc, ih fun d hd => h d (List.mem_cons_of_mem _ hd)]

end Hypermark.Text
