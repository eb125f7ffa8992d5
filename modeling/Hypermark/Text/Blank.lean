/-!
Text as a list of characters, and its white space.

Two classes of white space matter.  `isBlank` is the wide one: the spaces of every script, the
line breaks and the four information separators; trimming and word splitting use it.  `isSpace` is
the narrow one, the six white-space characters of ASCII, and only these collapse: a no-break space
survives.

* `trim_eq_nil_iff`: a text trims to nothing exactly when it is blank.
* `flatten_runs`: cutting a text into runs loses nothing.
-/

namespace Hypermark

/-- A text is the list of its characters. -/
abbrev Text := List Char

namespace Text

/-! ## Wide white space -/

/-- White space of any script, and the information separators U+001C to U+001F. -/
def isBlank (c : Char) : Bool :=
  let n := c.toNat
  (9 ≤ n && n ≤ 13) || (28 ≤ n && n ≤ 32) || n == 0x85 || n == 0xA0 || n == 0x1680 ||
    (0x2000 ≤ n && n ≤ 0x200A) || n == 0x2028 || n == 0x2029 || n == 0x202F || n == 0x205F ||
    n == 0x3000

/-- Only white space, or nothing at all. -/
def allBlank (t : Text) : Bool := t.all isBlank

/-- The text up to the last character that fails `p`. -/
def dropEndWhile (p : Char → Bool) (t : Text) : Text := (t.reverse.dropWhile p).reverse

def trimStart (t : Text) : Text := t.dropWhile isBlank

def trimEnd (t : Text) : Text := dropEndWhile isBlank t

/-- The text without the white space at its two ends. -/
def trim (t : Text) : Text := trimEnd (trimStart t)

/-- The maximal pieces without white space. -/
def words (t : Text) : List Text := (t.splitOnP isBlank).filter (!·.isEmpty)

/-- The words with one space between each two. -/
def joinWords (t : Text) : Text := [' '].intercalate (words t)

/-! ## Narrow white space -/

/-- The six white-space characters of ASCII. -/
def isSpace (c : Char) : Bool :=
  c == ' ' || c == '\t' || c == '\r' || c == '\n' || c == '\x0c' || c == '\x0b'

/-- The maximal pieces that are all `isSpace` or free of it, in order. -/
def runs : Text → List Text
  | [] => []
  | c :: cs =>
    match runs cs with
    | (d :: run) :: rest =>
      if isSpace c = isSpace d then (c :: d :: run) :: rest else [c] :: (d :: run) :: rest
    | rest => [c] :: rest

/-- Every run of ASCII white space becomes one space. -/
def collapseSpaces (t : Text) : Text :=
  (runs t).flatMap fun run => if run.all isSpace then [' '] else run

/-! ## Lemmas -/

theorem isBlank_of_isSpace {c : Char} (h : isSpace c = true) : isBlank c = true := by
  simp only [isSpace, Bool.or_eq_true, beq_iff_eq] at h
  rcases h with ((((h | h) | h) | h) | h) | h <;> subst h <;> rfl

theorem dropWhile_eq_nil_iff (p : Char → Bool) (t : Text) :
    t.dropWhile p = [] ↔ t.all p = true := by
  induction t with
  | nil => simp
  | cons c cs ih => by_cases h : p c <;> simp_all

theorem dropEndWhile_eq_nil_iff (p : Char → Bool) (t : Text) :
    dropEndWhile p t = [] ↔ t.all p = true := by
  rw [dropEndWhile, List.reverse_eq_nil_iff, dropWhile_eq_nil_iff, List.all_reverse]

theorem trim_eq_nil_iff (t : Text) : trim t = [] ↔ allBlank t = true := by
  unfold trim trimEnd trimStart allBlank
  rw [dropEndWhile_eq_nil_iff]
  induction t with
  | nil => simp
  | cons c cs ih => by_cases h : isBlank c <;> simp_all

theorem flatten_runs (t : Text) : (runs t).flatten = t := by
  induction t with
  | nil => rfl
  | cons c cs ih =>
    unfold runs
    split
    · rename_i d run rest h
      rw [h] at ih
      split <;> simp_all
    · simp_all

end Text

end Hypermark
