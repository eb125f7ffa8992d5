import Mathlib.Data.List.Induction
import Hypermark.Document.Attributes

/-!
# Attributes as they are found

Of several attributes with one name the last value counts, and a change of the values in the light
of their names goes through every step of a lookup.

* `lookup_distinct`: the last value of a name is found.
* `Node.attribute?_eq`: so it is with the attributes of an element.
-/

namespace Hypermark

namespace Attributes

variable {α β : Type}

theorem lookup_put_of_ne {key k : Text} (h : k ≠ key) (value : α) (m : List (Text × α)) :
    (put key value m).lookup k = m.lookup k := by
  induction m with
  | nil => simp [put, List.lookup_cons, beq_eq_false_iff_ne.mpr h]
  | cons e m ih =>
    obtain ⟨k', v⟩ := e
    by_cases he : k' = key
    · rw [put, if_pos he, List.lookup_cons, List.lookup_cons, he, beq_eq_false_iff_ne.mpr h]
    · rw [put, if_neg he, List.lookup_cons, List.lookup_cons, ih]

theorem distinct_concat (entries : List (Text × α)) (e : Text × α) :
    distinct (entries ++ [e]) = put e.1 e.2 (distinct entries) := by
  rw [distinct, List.foldl_append]
  rfl

/-- The last value of a name is the one that is found. -/
theorem lookup_distinct (k : Text) (entries : List (Text × α)) :
    (distinct entries).lookup k = entries.reverse.lookup k := by
  induction entries using List.reverseRecOn with
  | nil => rfl
  | append_singleton entries e ih =>
    rw [distinct_concat, List.reverse_append, List.reverse_singleton, List.singleton_append, List.lookup_cons]
    by_cases hk : k = e.1
    · rw [hk, lookup_put, beq_self_eq_true]
    · rw [lookup_put_of_ne hk, ih, beq_eq_false_iff_ne.mpr hk]

/-- Values changed in the light of their names. -/
def mapValues (g : Text → α → β) (entries : List (Text × α)) : List (Text × β) :=
  entries.map fun e => (e.1, g e.1 e.2)

theorem mapValues_put (g : Text → α → β) (key : Text) (value : α) (m : List (Text × α)) :
    mapValues g (put key value m) = put key (g key value) (mapValues g m) := by
  induction m with
  | nil => rfl
  | cons e m ih =>
    obtain ⟨k, v⟩ := e
    by_cases h : k = key
    · simp only [put, mapValues, List.map_cons, h, if_true]
    · simp only [put, if_neg h, mapValues, List.map_cons]
      exact congrArg _ ih

theorem mapValues_distinct (g : Text → α → β) (entries : List (Text × α)) :
    mapValues g (distinct entries) = distinct (mapValues g entries) := by
  induction entries using List.reverseRecOn with
  | nil => rfl
  | append_singleton entries e ih =>
    have hmap : mapValues g (entries ++ [e]) = mapValues g entries ++ [(e.1, g e.1 e.2)] :=
      List.map_append ..
    rw [distinct_concat, mapValues_put, ih, hmap, distinct_concat]

theorem lookup_map_key {key : α → Text} {value : α → β} (k : Text) (as : List α) :
    (as.map fun a => (key a, value a)).lookup k = (as.find? fun a => key a == k).map value := by
  induction as with
  | nil => rfl
  | cons a as ih =>
    rw [List.map_cons, List.lookup_cons, List.find?_cons, ih]
    by_cases h : k = key a
    · rw [h, beq_self_eq_true]
      rfl
    · rw [beq_eq_false_iff_ne.mpr h, beq_eq_false_iff_ne.mpr (Ne.symm h)]

end Attributes

/-- The value of an attribute is the last one written under its name. -/
theorem Node.attribute?_eq (n : Node) (name : Text) :
    n.attribute? name = (n.writtenAttributes.reverse.find? fun a => Text.lower a.1 == name).map
      fun a => a.2.getD [] := by
  rw [attribute?, attributes, Attributes.lookup_distinct, ← List.map_reverse,
    Attributes.lookup_map_key]

end Hypermark
