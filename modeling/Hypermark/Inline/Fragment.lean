import Hypermark.Text.Blank

/-!
Inline output before its white space is settled: a list of fragments.

Literal text may still be escaped and its white space still collapses.  Markup is finished Markdown
and stays as it is.  A hard break is the line break that a `br` asks for; it survives where every
other line break of the source becomes a space.

* `settleAfter_of_ne_nil`: a gap at the start is all that tells `settleAfter` from `settle`.
* `prune_append_markup`: pruning does not reach past markup.
-/

namespace Hypermark

/-- A piece of inline output. -/
inductive Fragment where
  | text (content : Text)
  | markup (content : Text)
  | hardBreak (content : Text)
deriving DecidableEq, Repr

namespace Fragment

def content : Fragment → Text
  | text t => t
  | markup t => t
  | hardBreak t => t

def isText : Fragment → Bool
  | text _ => true
  | _ => false

/-- Literal text that starts with white space. -/
def opensWithSpace : Fragment → Bool
  | text (c :: _) => Text.isSpace c
  | _ => false

/-- Literal text that ends in white space. -/
def endsWithSpace : Fragment → Bool
  | text t => t.getLast?.any Text.isSpace
  | _ => false

end Fragment

/-- The inline output of one subtree, in order. -/
abbrev Buffer := List Fragment

namespace Buffer

/-- The contents of all fragments, white space as it came. -/
def raw (b : Buffer) : Text := b.flatMap Fragment.content

/-- The places in `raw` of the characters of hard breaks, the buffer starting at `start`. -/
def breakOffsetsFrom (start : Nat) : Buffer → List Nat
  | [] => []
  | .hardBreak t :: fs =>
    List.range' start t.length ++ breakOffsetsFrom (start + t.length) fs
  | f :: fs => breakOffsetsFrom (start + f.content.length) fs

def breakOffsets (b : Buffer) : List Nat := breakOffsetsFrom 0 b

/-! ## Collapsing -/

/-- What collapsing sees in a buffer: finished pieces and the gaps between them. -/
inductive Atom where
  | piece (f : Fragment)
  | space
  | breaks (count : Nat)
deriving DecidableEq, Repr

/-- The atoms of one fragment, `escape` being applied to every piece of literal text. -/
def atomsOf (escape : Text → Text) : Fragment → List Atom
  | .text t =>
    (Text.runs t).map fun run =>
      if run.all Text.isSpace then .space else .piece (.text (escape run))
  | .markup t => [.piece (.markup t)]
  | .hardBreak t => [.breaks t.length]

def atoms (escape : Text → Text) (b : Buffer) : List Atom := b.flatMap (atomsOf escape)

/-- The white space between two pieces: whether there was a space, and how many hard breaks. -/
structure Gap where
  space : Bool
  breaks : Nat
deriving DecidableEq, Repr

namespace Gap

def none : Gap := ⟨false, 0⟩

/-- Hard breaks win over spaces. -/
def fragments (g : Gap) : Buffer :=
  if 0 < g.breaks then [.hardBreak (List.replicate g.breaks '\n')]
  else if g.space then [.text [' ']]
  else []

end Gap

/-- The pieces with their gaps settled; `gap` is what came since the last piece. -/
def settleAfter (gap : Gap) : List Atom → Buffer
  | [] => []
  | .piece f :: rest => gap.fragments ++ f :: settleAfter Gap.none rest
  | .space :: rest => settleAfter { gap with space := true } rest
  | .breaks n :: rest => settleAfter { gap with breaks := gap.breaks + n } rest

/-- The pieces with the gap before the first one dropped. -/
def settle : List Atom → Buffer
  | [] => []
  | .piece f :: rest => f :: settleAfter Gap.none rest
  | _ :: rest => settle rest

/-- The buffer with its white space collapsed: one space or the hard breaks between two pieces, and
nothing at the edges. -/
def collapsedWith (escape : Text → Text) (b : Buffer) : Buffer := settle (atoms escape b)

def collapsed (b : Buffer) : Buffer := collapsedWith id b

/-- The collapsed buffer as one text. -/
def collapseWith (escape : Text → Text) (b : Buffer) : Text := raw (collapsedWith escape b)

def collapse (b : Buffer) : Text := collapseWith id b

/-! ## Building -/

def addText (b : Buffer) (t : Text) : Buffer := if t.isEmpty then b else b ++ [.text t]

def addMarkup (b : Buffer) (t : Text) : Buffer := if t.isEmpty then b else b ++ [.markup t]

def addBreak (b : Buffer) : Buffer := b ++ [.hardBreak ['\n']]

/-- Whether a buffer starts, and whether it ends, with literal white space. -/
def edges (b : Buffer) : Bool × Bool :=
  (b.head?.any Fragment.opensWithSpace, b.getLast?.any Fragment.endsWithSpace)

def spaceIf (wanted : Bool) (b : Buffer) : Buffer := if wanted then addText b [' '] else b

/-- Adds the fragments made from `child`, with a space where `child` had white space at its edge. -/
def addSurrounded (b child fragments : Buffer) : Buffer :=
  spaceIf child.edges.2 (spaceIf child.edges.1 b ++ fragments)

/-- Stands in for a child that collapsed to nothing: one space if it held literal text. -/
def addStandIn (b child : Buffer) : Buffer := spaceIf (child.any Fragment.isText) b

/-- Adds a child between two delimiters, its edge white space outside of them. -/
def addWrapped (b child : Buffer) (delimiter : Text) : Buffer :=
  let inner := collapsed child
  if inner.isEmpty then addStandIn b child
  else addSurrounded b child (.markup delimiter :: inner ++ [.markup delimiter])

/-! ## Pruning -/

/-- White space or a pipe. -/
def isSeparator (c : Char) : Bool := Text.isBlank c || c == '|'

/-- The text without the pipes at its end, if its last visible character is one. -/
def pruneText (t : Text) : Text :=
  if (Text.trimEnd t).getLast? == some '|' then Text.dropEndWhile isSeparator t else t

/-- Pruning of a buffer given from its end. -/
def pruneEnd : List Fragment → List Fragment
  | [] => []
  | .markup m :: before => .markup m :: before
  | .text t :: before =>
    if Text.allBlank (pruneText t) then pruneEnd before else .text (pruneText t) :: before
  | .hardBreak t :: before => if Text.allBlank t then pruneEnd before else .hardBreak t :: before

/-- Drops pipes and white space that dangle at the end, as far back as the last markup. -/
def prune (b : Buffer) : Buffer := (pruneEnd b.reverse).reverse

/-! ## Lemmas -/

theorem raw_append (a b : Buffer) : raw (a ++ b) = raw a ++ raw b := by simp [raw]

theorem atoms_append (escape : Text → Text) (a b : Buffer) :
    atoms escape (a ++ b) = atoms escape a ++ atoms escape b := by simp [atoms]

theorem settleAfter_eq_nil_iff (gap : Gap) (as : List Atom) :
    settleAfter gap as = [] ↔ settle as = [] := by
  induction as generalizing gap with
  | nil => exact Iff.rfl
  | cons a as ih =>
    cases a with
    | piece f => simp [settle, settleAfter]
    | space => exact ih _
    | breaks n => exact ih _

/-- The gap before the first piece of some atoms, where `gap` came before them. -/
def gapBefore (gap : Gap) : List Atom → Gap
  | [] => gap
  | .piece _ :: _ => gap
  | .space :: rest => gapBefore { gap with space := true } rest
  | .breaks n :: rest => gapBefore { gap with breaks := gap.breaks + n } rest

/-- After a gap the pieces come out as they do at the start, but for the first gap. -/
theorem settleAfter_of_ne_nil {as : List Atom} (h : settle as ≠ []) (gap : Gap) :
    settleAfter gap as = (gapBefore gap as).fragments ++ settle as := by
  induction as generalizing gap with
  | nil => exact absurd rfl h
  | cons a as ih =>
    cases a with
    | piece f => rfl
    | space => exact ih h _
    | breaks n => exact ih h _

theorem exists_gap_settleAfter (gap : Gap) (as : List Atom) :
    ∃ g : Gap, settleAfter gap as = g.fragments ++ settle as := by
  by_cases h : settle as = []
  · refine ⟨Gap.none, ?_⟩
    rw [(settleAfter_eq_nil_iff gap as).mpr h, h]
    rfl
  · exact ⟨_, settleAfter_of_ne_nil h gap⟩

theorem prune_append_markup (b : Buffer) (m : Text) : prune (b ++ [.markup m]) = b ++ [.markup m] := by
  simp [prune, pruneEnd]

theorem length_pruneEnd_le (fs : List Fragment) : (pruneEnd fs).length ≤ fs.length := by
  fun_induction pruneEnd fs <;> simp_all <;> omega

end Buffer

end Hypermark
