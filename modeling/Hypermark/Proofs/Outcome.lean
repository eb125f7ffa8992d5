import Mathlib.Data.List.Forall2
import Hypermark.Traced

/-!
# Outcomes of traced computations

What a computation ends with does not depend on what it notes.  The lemmas here open `bind` and
`sequence` once, in the three forms that proofs about the renderer ask for: when a computation
ends with a given value (`bind_outcome_eq_ok_iff`), when it ends with a value at all
(`succeeds_bind_iff`), and when two computations end alike (`bind_outcome_congr`).
-/

namespace Hypermark.Traced

variable {α β : Type}

/-- The computation ends with a value. -/
def Succeeds (x : Traced α) : Prop := ∃ a, x.outcome = .ok a

@[simp] theorem outcome_pure (a : α) : (Traced.pure a).outcome = .ok a := rfl

@[simp] theorem outcome_note (n : Notice) : (note n).outcome = .ok () := rfl

theorem succeeds_pure (a : α) : (Traced.pure a).Succeeds := ⟨a, rfl⟩

/-! ## Values -/

theorem bind_outcome_of_ok {x : Traced α} {a : α} (h : x.outcome = .ok a) (f : α → Traced β) :
    (x.bind f).outcome = (f a).outcome := by
  unfold Traced.bind
  rw [h]

theorem bind_outcome_of_error {x : Traced α} {e : Fault} (h : x.outcome = .error e)
    (f : α → Traced β) : (x.bind f).outcome = .error e := by
  unfold Traced.bind
  rw [h]

theorem bind_outcome_eq_ok_iff {x : Traced α} {f : α → Traced β} {b : β} :
    (x.bind f).outcome = .ok b ↔ ∃ a, x.outcome = .ok a ∧ (f a).outcome = .ok b := by
  unfold Traced.bind
  cases hx : x.outcome with
  | error e => simp
  | ok a => simp

theorem sequence_outcome_eq_ok_iff {xs : List (Traced α)} {as : List α} :
    (sequence xs).outcome = .ok as ↔ List.Forall₂ (fun x a => x.outcome = .ok a) xs as := by
  induction xs generalizing as with
  | nil => simp [sequence, eq_comm]
  | cons x xs ih =>
    simp only [sequence, bind_outcome_eq_ok_iff, ih, outcome_pure, Except.ok.injEq,
      List.forall₂_cons_left_iff]
    constructor
    · rintro ⟨a, hx, as', hxs, rfl⟩
      exact ⟨a, as', hx, hxs, rfl⟩
    · rintro ⟨a, as', hx, hxs, rfl⟩
      exact ⟨a, hx, as', hxs, rfl⟩

/-- A sequence whose steps give what a function gives. -/
theorem sequence_map_eq {f : α → Traced β} {g : α → β} {xs : List α} {ys : List β}
    (h : (sequence (xs.map f)).outcome = .ok ys)
    (hf : ∀ x y, (f x).outcome = .ok y → g x = y) : ys = xs.map g := by
  rw [sequence_outcome_eq_ok_iff, List.forall₂_map_left_iff] at h
  induction h with
  | nil => rfl
  | cons hxy _ ih => rw [List.map_cons, ← ih, hf _ _ hxy]

theorem exists_of_mem_sequence {xs : List (Traced α)} {as : List α}
    (h : (sequence xs).outcome = .ok as) {a : α} (ha : a ∈ as) : ∃ x ∈ xs, x.outcome = .ok a := by
  rw [sequence_outcome_eq_ok_iff] at h
  obtain ⟨i, hi, rfl⟩ := List.getElem_of_mem ha
  have hxs : i < xs.length := h.length_eq ▸ hi
  exact ⟨xs[i], List.getElem_mem hxs, h.get hxs hi⟩

theorem ofSized_outcome_eq_ok_iff {x : Except Oversize α} {a : α} :
    (ofSized x).outcome = .ok a ↔ x = .ok a := by
  unfold ofSized
  cases x with
  | error size => simp
  | ok b => simp

theorem forall₂_append_left {α β : Type} {R : α → β → Prop} {xs ys : List α} {zs : List β}
    (h : List.Forall₂ R (xs ++ ys) zs) :
    ∃ us vs, List.Forall₂ R xs us ∧ List.Forall₂ R ys vs ∧ zs = us ++ vs :=
  ⟨zs.take xs.length, zs.drop xs.length, (List.forall₂_take_append zs xs ys h.flip).flip,
    (List.forall₂_drop_append zs xs ys h.flip).flip, (List.take_append_drop ..).symm⟩

/-! ## Success -/

theorem succeeds_bind_iff {x : Traced α} {f : α → Traced β} :
    (x.bind f).Succeeds ↔ ∃ a, x.outcome = .ok a ∧ (f a).Succeeds := by
  unfold Succeeds
  simp only [bind_outcome_eq_ok_iff]
  constructor
  · rintro ⟨b, a, hx, hf⟩
    exact ⟨a, hx, b, hf⟩
  · rintro ⟨a, hx, b, hf⟩
    exact ⟨b, a, hx, hf⟩

/-- A second step whose success does not depend on the value of the first. -/
theorem succeeds_bind_iff_and {x : Traced α} {f : α → Traced β} {P : Prop}
    (h : ∀ a, x.outcome = .ok a → ((f a).Succeeds ↔ P)) :
    (x.bind f).Succeeds ↔ x.Succeeds ∧ P := by
  rw [succeeds_bind_iff]
  constructor
  · rintro ⟨a, hx, hf⟩
    exact ⟨⟨a, hx⟩, (h a hx).mp hf⟩
  · rintro ⟨⟨a, hx⟩, hp⟩
    exact ⟨a, hx, (h a hx).mpr hp⟩

theorem succeeds_bind_iff_left {x : Traced α} {f : α → Traced β} (h : ∀ a, (f a).Succeeds) :
    (x.bind f).Succeeds ↔ x.Succeeds := by
  rw [succeeds_bind_iff_and (P := True) fun a _ => iff_true_intro (h a), and_true]

theorem succeeds_sequence_iff {xs : List (Traced α)} :
    (sequence xs).Succeeds ↔ ∀ x ∈ xs, x.Succeeds := by
  induction xs with
  | nil => exact ⟨fun _ => by simp, fun _ => succeeds_pure []⟩
  | cons x xs ih =>
    rw [sequence, succeeds_bind_iff_and (P := (sequence xs).Succeeds), ih, List.forall_mem_cons]
    intro a _
    exact succeeds_bind_iff_left fun as => succeeds_pure (a :: as)

theorem succeeds_ofSized_iff {x : Except Oversize α} : (ofSized x).Succeeds ↔ ∃ a, x = .ok a := by
  simp only [Succeeds, ofSized_outcome_eq_ok_iff]

theorem succeeds_ofSized_bind_iff {x : Except Oversize α} {f : α → Traced β} :
    ((ofSized x).bind f).Succeeds ↔ ∃ a, x = .ok a ∧ (f a).Succeeds := by
  simp only [succeeds_bind_iff, ofSized_outcome_eq_ok_iff]

/-! ## Equal outcomes -/

theorem bind_outcome_congr {x y : Traced α} {f g : α → Traced β} (hx : x.outcome = y.outcome)
    (h : ∀ a, x.outcome = .ok a → (f a).outcome = (g a).outcome) :
    (x.bind f).outcome = (y.bind g).outcome := by
  unfold Traced.bind
  rw [← hx]
  cases ha : x.outcome with
  | error e => rfl
  | ok a => exact h a ha

theorem sequence_outcome_congr {xs ys : List (Traced α)}
    (h : xs.map outcome = ys.map outcome) : (sequence xs).outcome = (sequence ys).outcome := by
  induction xs generalizing ys with
  | nil =>
    cases ys with
    | nil => rfl
    | cons y ys => cases h
  | cons x xs ih =>
    cases ys with
    | nil => cases h
    | cons y ys =>
      simp only [List.map_cons, List.cons.injEq] at h
      exact bind_outcome_congr h.1 fun a _ => bind_outcome_congr (ih h.2) fun as _ => rfl

/-! ## Outcomes under a map

A computation that gives the image of what another one gives can stand in for it where only the
image counts. -/

section Map

variable {γ δ : Type} {x : Traced α} {y : Traced β} {h : α → β} {k : γ → δ}
  {F : α → Traced γ}

theorem bind_outcome_map {G : β → Traced δ} (hxy : y.outcome = x.outcome.map h)
    (hFG : ∀ a, (G (h a)).outcome = (F a).outcome.map k) :
    (y.bind G).outcome = (x.bind F).outcome.map k := by
  unfold Traced.bind
  rw [hxy]
  cases x.outcome with
  | error e => rfl
  | ok a => exact hFG a

theorem bind_outcome_map_right {x y : Traced α} {F : α → Traced γ} {G : α → Traced δ}
    (hxy : y.outcome = x.outcome) (hFG : ∀ a, (G a).outcome = (F a).outcome.map k) :
    (y.bind G).outcome = (x.bind F).outcome.map k := by
  unfold Traced.bind
  rw [hxy]
  cases x.outcome with
  | error e => rfl
  | ok a => exact hFG a

theorem bind_outcome_of_map {G : β → Traced γ} (hxy : y.outcome = x.outcome.map h)
    (hFG : ∀ a, (G (h a)).outcome = (F a).outcome) :
    (y.bind G).outcome = (x.bind F).outcome := by
  unfold Traced.bind
  rw [hxy]
  cases x.outcome with
  | error e => rfl
  | ok a => exact hFG a

theorem sequence_outcome_map {ι κ : Type} {f : ι → Traced α} {f' : κ → Traced β} {g : ι → κ}
    (hf : ∀ i, (f' (g i)).outcome = (f i).outcome.map h) (is : List ι) :
    (sequence ((is.map g).map f')).outcome = (sequence (is.map f)).outcome.map (List.map h) := by
  induction is with
  | nil => rfl
  | cons i is ih =>
    refine bind_outcome_map (hf i) fun a => ?_
    exact bind_outcome_map ih fun as => rfl

end Map

end Hypermark.Traced
