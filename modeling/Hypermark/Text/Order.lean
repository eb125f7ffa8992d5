import Hypermark.Text.Blank

/-!
The order of texts by code points: the first different character decides, and a beginning of a text
comes before it.

* `precedes_refl`, `precedes_total`: of two texts one comes first, or they are equal.
-/

namespace Hypermark.Text

/-- `a` comes before `b` or is `b`. -/
def precedes : (a b : Text) → Bool
  | [], _ => true
  | _ :: _, [] => false
  | c :: cs, d :: ds => if c = d then precedes cs ds else decide (c.toNat < d.toNat)

/-! ## Lemmas -/

theorem precedes_refl (a : Text) : precedes a a = true := by
  induction a with
  | nil => rfl
  | cons c cs ih => simp [precedes, ih]

theorem precedes_total (a b : Text) : precedes a b = true ∨ precedes b a = true := by
  induction a generalizing b with
  | nil => exact Or.inl rfl
  | cons c cs ih =>
    cases b with
    | nil => exact Or.inr rfl
    | cons d ds =>
      by_cases h : c = d
      · subst h
        simpa [precedes] using ih ds
      · have hn : c.toNat ≠ d.toNat := fun hn => h (Char.toNat_inj.mp hn)
        simp only [precedes, h, Ne.symm h, if_false, decide_eq_true_eq]
        omega

end Hypermark.Text
