import Hypermark.Fault
import Hypermark.Notice

/-!
Results that come with a record of what happened.

A traced result is the notices of a computation and its outcome, a value or the fault that ended
it.  Being a value itself, it can be kept, put in order with others, and only then be run.

* `log_bind`, `outcome_bind`: a fault ends the computation and keeps what was noted before.
-/

namespace Hypermark

structure Traced (α : Type) where
  log : List Notice
  outcome : Except Fault α

namespace Traced

variable {α β : Type}

def pure (a : α) : Traced α := ⟨[], .ok a⟩

def bind (x : Traced α) (f : α → Traced β) : Traced β :=
  match x.outcome with
  | .ok a =>
    let y := f a
    ⟨x.log ++ y.log, y.outcome⟩
  | .error e => ⟨x.log, .error e⟩

instance : Monad Traced where
  pure := Traced.pure
  bind := Traced.bind

/-- Only notes something. -/
def note (n : Notice) : Traced Unit := ⟨[n], .ok ()⟩

def fail (f : Fault) : Traced α := ⟨[], .error f⟩

/-- A number that was within its limits. -/
def ofSized (x : Except Oversize α) : Traced α :=
  match x with
  | .ok a => ⟨[], .ok a⟩
  | .error size => ⟨[], .error (.oversize size)⟩

/-- Runs the results of a list in order. -/
def sequence : List (Traced α) → Traced (List α)
  | [] => Traced.pure []
  | x :: xs => x.bind fun a => (sequence xs).bind fun as => Traced.pure (a :: as)

/-! ## Lemmas -/

theorem outcome_bind (x : Traced α) (f : α → Traced β) :
    (x >>= f).outcome = x.outcome >>= fun a => (f a).outcome := by
  show (Traced.bind x f).outcome = _
  unfold Traced.bind
  cases h : x.outcome <;> rfl

theorem log_bind (x : Traced α) (f : α → Traced β) :
    (x >>= f).log = x.log ++ match x.outcome with
      | .ok a => (f a).log
      | .error _ => [] := by
  show (Traced.bind x f).log = _
  unfold Traced.bind
  cases h : x.outcome <;> simp

theorem id_map (x : Traced α) : id <$> x = x := by
  obtain ⟨log, outcome⟩ := x
  cases outcome
  · rfl
  · show Traced.mk (log ++ []) _ = _
    rw [List.append_nil]
    rfl

theorem pure_bind (a : α) (f : α → Traced β) : (Traced.pure a).bind f = f a := rfl

theorem bind_assoc {γ : Type} (x : Traced α) (f : α → Traced β) (g : β → Traced γ) :
    (x.bind f).bind g = x.bind fun a => (f a).bind g := by
  obtain ⟨log, outcome⟩ := x
  cases outcome with
  | error e => rfl
  | ok a =>
    show Traced.bind ⟨log ++ (f a).log, (f a).outcome⟩ g =
      ⟨log ++ ((f a).bind g).log, ((f a).bind g).outcome⟩
    unfold Traced.bind
    cases (f a).outcome <;> simp

instance : LawfulMonad Traced := LawfulMonad.mk' Traced id_map pure_bind bind_assoc

end Traced

end Hypermark
