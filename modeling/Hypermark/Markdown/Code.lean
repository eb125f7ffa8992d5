import Hypermark.Text.Lines
import Hypermark.Markdown.Escape

/-!
Code in Markdown: spans inside a line and fenced blocks.

The delimiters are runs of backticks longer than any run in the code, so nothing inside can close
them.

* `longestRun_lt_codeFence`: the fence is longer than every run of the code.
-/

namespace Hypermark.Markdown

/-- A run of `n` backticks. -/
def backticks (n : Nat) : Text := List.replicate n backtick

def longestBackticks (t : Text) : Nat := Text.longestRun isBacktick t

/-! ## Spans -/

/-- The content of a code span: on one line and trimmed. -/
def spanContent (t : Text) : Text := Text.trim (Text.breaksToSpaces (Text.unifyBreaks t))

/-- A space that keeps the delimiter apart from a backtick next to it. -/
def spanPadding (neighbour : Option Char) : Text :=
  if neighbour = some backtick then [' '] else []

/-- The text as a code span; nothing if its content is empty. -/
def codeSpan (t : Text) : Text :=
  let content := spanContent t
  if content.isEmpty then []
  else
    let fence := backticks (longestBackticks content + 1)
    fence ++ spanPadding content.head? ++ content ++ spanPadding content.getLast? ++ fence

/-! ## Blocks -/

/-- The length of the fence of a block: at least `least`, and more than every run in the code. -/
def fenceLength (least : Nat) (code : Text) : Nat := max least (longestBackticks code + 1)

def codeFence (least : Nat) (code : Text) : Text := backticks (fenceLength least code)

/-- A fenced block whose opening line carries `info`. -/
def fencedBlock (least : Nat) (info code : Text) : Text :=
  codeFence least code ++ info ++ '\n' :: code ++ '\n' :: codeFence least code

/-! ## Lemmas -/

theorem fenceLength_pos (least : Nat) (code : Text) : 0 < fenceLength least code := by
  rw [fenceLength]; omega

theorem length_codeFence (least : Nat) (code : Text) :
    (codeFence least code).length = fenceLength least code := by
  simp [codeFence, backticks]

theorem longestRun_lt_codeFence (least : Nat) (code : Text) :
    longestBackticks code < (codeFence least code).length := by
  rw [length_codeFence, fenceLength]; omega

end Hypermark.Markdown
