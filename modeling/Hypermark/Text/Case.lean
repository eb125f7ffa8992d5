import Hypermark.Text.Blank
import Hypermark.Text.CaseRanges

/-!
Upper and lower case of whole texts, by the full mappings of Unicode.

A capital sigma becomes a final sigma when a letter comes before it and none after it; characters
such as apostrophes and accents do not count when the neighbouring letter is looked for.

* `lower_of_ascii`: on ASCII the lower case is taken letter by letter.
-/

namespace Hypermark.Text

/-! ## Tables -/

def inRanges (ranges : List (Nat × Nat)) (c : Char) : Bool :=
  ranges.any fun r => r.1 ≤ c.toNat && c.toNat ≤ r.2

/-- The character that a mapping table gives for `c`, or `c` itself. -/
def shifted (ranges : List (Nat × Nat × Nat × Int)) (c : Char) : Char :=
  let n := c.toNat
  match ranges.find? fun r => r.1 ≤ n && n ≤ r.2.1 && (n - r.1) % r.2.2.1 == 0 with
  | some r => Char.ofNat (n + r.2.2.2).toNat
  | none => c

def isCased (c : Char) : Bool := inRanges casedRanges c

def isCaseIgnorable (c : Char) : Bool := inRanges ignorableRanges c

/-! ## Characters -/

def isAscii (c : Char) : Bool := c.toNat < 128

/-- The lower-case form of a character that stands alone. -/
def lowerChar (c : Char) : Text :=
  if isAscii c then [c.toLower]
  else if c.toNat = 0x130 then ['i', '\u0307']
  else [shifted lowerRanges c]

def upperChar (c : Char) : Text :=
  if isAscii c then [c.toUpper]
  else
    match upperExpansions.lookup c.toNat with
    | some points => points.map Char.ofNat
    | none => [shifted upperRanges c]

/-! ## Texts -/

/-- The first character that counts in the search for a neighbouring letter is one. -/
def letterNext (t : Text) : Bool :=
  match t.dropWhile isCaseIgnorable with
  | c :: _ => isCased c
  | [] => false

/-- The small sigma for a place between `before` (nearest first) and `after`. -/
def smallSigma (before after : Text) : Char :=
  if letterNext before && !letterNext after then 'ς' else 'σ'

def lowerAfter (before : Text) : Text → Text
  | [] => []
  | c :: cs =>
    (if c = 'Σ' then [smallSigma before cs] else lowerChar c) ++ lowerAfter (c :: before) cs

/-- The text in lower case. -/
def lower (t : Text) : Text := lowerAfter [] t

/-- The text in upper case. -/
def upper (t : Text) : Text := t.flatMap upperChar

/-! ## Lemmas -/

theorem isAscii_of_isAlphanum {c : Char} (h : c.isAlphanum = true) : isAscii c = true := by
  have hbound : ∀ last : UInt32, c.val ≤ last → last < 128 → isAscii c = true :=
    fun last hle hlast => decide_eq_true (Nat.lt_of_le_of_lt hle hlast)
  rcases Bool.or_eq_true_iff.mp h with halpha | hdigit
  · rcases Bool.or_eq_true_iff.mp halpha with hupper | hlower
    · exact hbound 'Z'.val (of_decide_eq_true hupper).2 (by decide)
    · exact hbound 'z'.val (of_decide_eq_true (Bool.and_eq_true_iff.mp hlower).2) (by decide)
  · exact hbound '9'.val (of_decide_eq_true (Bool.and_eq_true_iff.mp hdigit).2) (by decide)

theorem lowerAfter_of_ascii (before t : Text) (h : t.all isAscii = true) :
    lowerAfter before t = t.map Char.toLower := by
  induction t generalizing before with
  | nil => rfl
  | cons c cs ih =>
    simp only [List.all_cons, Bool.and_eq_true] at h
    have hc : c ≠ 'Σ' := by rintro rfl; exact absurd h.1 (by decide)
    simp [lowerAfter, hc, lowerChar, h.1, ih _ h.2]

theorem lower_of_ascii (t : Text) (h : t.all isAscii = true) : lower t = t.map Char.toLower :=
  lowerAfter_of_ascii [] t h

end Hypermark.Text
