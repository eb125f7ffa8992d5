import Hypermark.Text.Runs

/-!
Escaping: literal text in places where Markdown would read something else.

Labels, titles and destinations of links each have their own rule.  In a table cell only the pipe
matters: `escapeCellLine` puts a backslash before every pipe that stands outside a code span and is
not escaped yet, and leaves everything else as it is.

* `escapeLabel_append`: a label is escaped character by character.
* `escapeAngles_eq_self`: text without angle brackets stays as it is.
-/

namespace Hypermark.Markdown

def backtick : Char := '\x60'

def isBacktick (c : Char) : Bool := c == backtick

/-! ## Links and plain text -/

/-- The characters that get a backslash in a label. -/
def labelMarks : Text := ['\\', '[', ']', '(', ')', '*', '_', backtick, '!']

def escapeLabel (t : Text) : Text :=
  t.flatMap fun c => if labelMarks.contains c then ['\\', c] else [c]

/-- The character would end a bare destination. -/
def endsDestination (c : Char) : Bool := Text.isBlank c || c == '(' || c == ')'

/-- The destination as it is written in a link: in angle brackets if it could not stand bare. -/
def formatDestination (url : Text) : Text :=
  if url.any endsDestination then '<' :: url ++ ['>'] else url

/-- The inside of a title between double quotes. -/
def escapeTitle (t : Text) : Text :=
  t.flatMap fun c => if c = '\\' || c = '"' then ['\\', c] else [c]

/-- Document text, in which an angle bracket must not open a tag. -/
def escapeAngles (t : Text) : Text :=
  t.flatMap fun c =>
    if c = '<' then "&lt;".toList else if c = '>' then "&gt;".toList else [c]

/-! ## Table cells -/

/-- The number of backticks at the start. -/
def leadingBackticks (t : Text) : Nat := (t.takeWhile isBacktick).length

/-- The code-span state after a run of `run` backticks: `fence` is the length of the open run, zero
outside code.  A run opens a span only if `rest` has another run of its length. -/
def fenceAfter (fence run : Nat) (rest : Text) : Nat :=
  if fence = 0 then (if (Text.runLengths isBacktick rest).contains run then run else 0)
  else if run = fence then 0
  else fence

/-- The scan over a cell line, `fence` being the open code span and `copy` the number of characters
that still pass unread: the second half of a backslash pair or the rest of a backtick run. -/
def escapePipesFrom (fence copy : Nat) : Text → Text
  | [] => []
  | c :: cs =>
    match copy with
    | k + 1 => c :: escapePipesFrom fence k cs
    | 0 =>
      if c = '\\' then c :: escapePipesFrom fence 1 cs
      else if c = backtick then
        let more := leadingBackticks cs
        c :: escapePipesFrom (fenceAfter fence (more + 1) (cs.drop more)) more cs
      else if c = '|' && fence = 0 then '\\' :: '|' :: escapePipesFrom fence 0 cs
      else c :: escapePipesFrom fence 0 cs

/-- One line of a table cell with its live pipes escaped, trimmed. -/
def escapeCellLine (line : Text) : Text := Text.trim (escapePipesFrom 0 0 line)

/-! ## Lemmas -/

theorem escapeLabel_append (s t : Text) : escapeLabel (s ++ t) = escapeLabel s ++ escapeLabel t := by
  simp [escapeLabel]

theorem escapeAngles_append (s t : Text) :
    escapeAngles (s ++ t) = escapeAngles s ++ escapeAngles t := by
  simp [escapeAngles]

theorem escapeAngles_eq_self {t : Text} (hl : '<' ∉ t) (hg : '>' ∉ t) : escapeAngles t = t := by
  induction t with
  | nil => rfl
  | cons c cs ih =>
    simp only [List.mem_cons, not_or] at hl hg
    have h := ih hl.2 hg.2
    unfold escapeAngles at h ⊢
    rw [List.flatMap_cons, if_neg (Ne.symm hl.1), if_neg (Ne.symm hg.1), h]
    rfl

end Hypermark.Markdown
