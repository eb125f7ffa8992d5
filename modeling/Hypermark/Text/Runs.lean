import Hypermark.Text.Blank

/-!
Lengths of the maximal runs of one kind of character.

* `longestRun_le_iff`: the longest run is the least bound of all runs.
-/

namespace Hypermark.Text

/-- The lengths of the runs of `p` in a text that follows `before` characters of a run. -/
def runLengthsFrom (p : Char → Bool) (before : Nat) : Text → List Nat
  | [] => if before = 0 then [] else [before]
  | c :: cs =>
    if p c then runLengthsFrom p (before + 1) cs
    else if before = 0 then runLengthsFrom p 0 cs
    else before :: runLengthsFrom p 0 cs

/-- The lengths of the maximal runs of characters that satisfy `p`, in order. -/
def runLengths (p : Char → Bool) (t : Text) : List Nat := runLengthsFrom p 0 t

/-- The length of the longest run, zero if there is none. -/
def longestRun (p : Char → Bool) (t : Text) : Nat := (runLengths p t).foldl max 0

/-! ## Lemmas -/

theorem foldl_max_le_iff (ns : List Nat) (a b : Nat) :
    ns.foldl max a ≤ b ↔ a ≤ b ∧ ∀ n ∈ ns, n ≤ b := by
  induction ns generalizing a with
  | nil => simp
  | cons n ns ih =>
    simp only [List.foldl_cons, ih, List.mem_cons, forall_eq_or_imp]
    constructor
    · rintro ⟨h, hs⟩; exact ⟨by omega, by omega, hs⟩
    · rintro ⟨ha, hn, hs⟩; exact ⟨by omega, hs⟩

theorem longestRun_le_iff (p : Char → Bool) (t : Text) (b : Nat) :
    longestRun p t ≤ b ↔ ∀ n ∈ runLengths p t, n ≤ b := by
  simp [longestRun, foldl_max_le_iff]

end Hypermark.Text
