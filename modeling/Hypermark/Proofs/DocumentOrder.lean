import Mathlib.Data.List.Lex
import Mathlib.Data.List.Infix
import Hypermark.Document.Place

/-!
# Document order

Below a place every element has a path of its own.  Document order is the lexicographic order of the
paths, and an element is below another one exactly if its path goes on from there.

* `pairwise_path_lt`: what is below a place comes in the order of its paths.
* `exists_child_of_mem_descendants`, `path_eq_of_contains`: it is in exactly one of the children.
* `mem_descendants_of_isPrefix`: an element whose path goes on from another one is below that.
* `path_le_of_find?`: a search finds the first of all that it looks for.
-/

namespace Hypermark.Place

variable {path : List Nat} {scope : Scope} {i j : Nat}

/-! ## Paths -/

theorem index_eq_of_isPrefix {l : List Nat} (hi : path ++ [i] <+: l) (hj : path ++ [j] <+: l) :
    i = j := by
  have hprefix : path ++ [i] <+: path ++ [j] := List.prefix_of_prefix_length_le hi hj (by simp)
  simpa using (List.prefix_append_right_inj path).mp hprefix

/-- The first of some siblings itself, where it is an element. -/
theorem eq_of_mem_itself {p q : Place} {b : Bool} (h : q ∈ if b then [p] else []) : q = p := by
  split at h
  · exact List.mem_singleton.mp h
  · cases h

theorem isPrefix_of_mem_first {n : Node} {q : Place}
    (h : q ∈ (if n.isElement then [(⟨path ++ [i], scope, n⟩ : Place)] else []) ++
      elementsBelow (path ++ [i]) scope n) : path ++ [i] <+: q.path := by
  rcases List.mem_append.mp h with h | h
  · rw [eq_of_mem_itself h]
  · exact isPrefixOf_of_mem_elementsBelow _ _ n q h

theorem exists_index_of_mem_siblings {ns : List Node} {c : Place}
    (h : c ∈ siblings path scope i ns) : ∃ j, i ≤ j ∧ c.path = path ++ [j] := by
  induction ns generalizing i with
  | nil => cases h
  | cons n ns ih =>
    rcases List.mem_cons.mp h with rfl | h
    · exact ⟨i, Nat.le_refl i, rfl⟩
    · obtain ⟨j, hj, hpath⟩ := ih h
      exact ⟨j, Nat.le_of_succ_le hj, hpath⟩

/-- What is found among siblings is one of them or below one. -/
theorem exists_sibling_of_mem_elementsAmong {ns : List Node} {q : Place}
    (h : q ∈ elementsAmong path scope i ns) :
    ∃ c ∈ siblings path scope i ns, c.contains q = true := by
  induction ns generalizing i with
  | nil => cases h
  | cons n ns ih =>
    rw [elementsAmong, List.mem_append] at h
    rcases h with h | h
    · exact ⟨_, List.mem_cons_self .., List.isPrefixOf_iff_prefix.mpr (isPrefix_of_mem_first h)⟩
    · obtain ⟨c, hc, hcontains⟩ := ih h
      exact ⟨c, List.mem_cons_of_mem _ hc, hcontains⟩

theorem exists_index_of_mem_elementsAmong {ns : List Node} {q : Place}
    (h : q ∈ elementsAmong path scope i ns) : ∃ j, i ≤ j ∧ path ++ [j] <+: q.path := by
  obtain ⟨c, hc, hcontains⟩ := exists_sibling_of_mem_elementsAmong h
  obtain ⟨j, hj, hpath⟩ := exists_index_of_mem_siblings hc
  rw [contains, hpath, List.isPrefixOf_iff_prefix] at hcontains
  exact ⟨j, hj, hcontains⟩

/-- What is below a node has a longer path. -/
theorem exists_index_of_mem_elementsBelow {n : Node} {q : Place}
    (h : q ∈ elementsBelow path scope n) : ∃ j, path ++ [j] <+: q.path := by
  cases n with
  | element name attrs cs =>
    obtain ⟨j, _, hj⟩ := exists_index_of_mem_elementsAmong h
    exact ⟨j, hj⟩
  | text t => cases h
  | comment t => cases h
  | directive k t => cases h

theorem length_lt_of_mem_elementsBelow {n : Node} {q : Place}
    (h : q ∈ elementsBelow path scope n) : path.length < q.path.length := by
  obtain ⟨j, hj⟩ := exists_index_of_mem_elementsBelow h
  have hlength := hj.length_le
  rw [List.length_append, List.length_singleton] at hlength
  omega

/-! ## Order -/

theorem path_lt_of_isPrefix {l : List Nat} (h : path ++ [j] <+: l) : path < l := by
  obtain ⟨rest, rfl⟩ := h
  have hlt : path ++ [] < path ++ (j :: rest) := List.append_left_lt List.Lex.nil
  rwa [List.append_nil, ← List.singleton_append, ← List.append_assoc] at hlt

theorem path_lt_of_index_lt {l l' : List Nat} (h : path ++ [i] <+: l) (h' : path ++ [j] <+: l')
    (hij : i < j) : l < l' := by
  obtain ⟨rest, rfl⟩ := h
  obtain ⟨rest', rfl⟩ := h'
  rw [List.append_assoc, List.append_assoc]
  exact List.append_left_lt (List.Lex.rel hij)

mutual

theorem pairwise_elementsBelow (path : List Nat) (scope : Scope) :
    (n : Node) → (elementsBelow path scope n).Pairwise fun p q => p.path < q.path
  | .element name _ cs => pairwise_elementsAmong path (name :: scope) 0 cs
  | .text _ => .nil
  | .comment _ => .nil
  | .directive _ _ => .nil

theorem pairwise_elementsAmong (path : List Nat) (scope : Scope) (i : Nat) :
    (ns : List Node) → (elementsAmong path scope i ns).Pairwise fun p q => p.path < q.path
  | [] => .nil
  | n :: ns => by
    rw [elementsAmong, List.pairwise_append, List.pairwise_append]
    refine ⟨⟨?_, pairwise_elementsBelow (path ++ [i]) scope n, fun p hp q hq => ?_⟩,
      pairwise_elementsAmong path scope (i + 1) ns, fun p hp q hq => ?_⟩
    · split
      · exact List.pairwise_singleton _ _
      · exact .nil
    · rw [eq_of_mem_itself hp]
      obtain ⟨j, hj⟩ := exists_index_of_mem_elementsBelow hq
      exact path_lt_of_isPrefix hj
    · obtain ⟨j, hij, hj⟩ := exists_index_of_mem_elementsAmong hq
      exact path_lt_of_index_lt (isPrefix_of_mem_first hp) hj hij

end

theorem pairwise_siblings (path : List Nat) (scope : Scope) (i : Nat) (ns : List Node) :
    (siblings path scope i ns).Pairwise fun c d => c.path < d.path := by
  induction ns generalizing i with
  | nil => exact .nil
  | cons n ns ih =>
    refine .cons (fun d hd => ?_) (ih (i + 1))
    obtain ⟨j, hj, hpath⟩ := exists_index_of_mem_siblings hd
    exact path_lt_of_index_lt (List.prefix_refl _) (hpath ▸ List.prefix_refl _) hj

/-- What is below a place comes in the order of its paths. -/
theorem pairwise_path_lt (p : Place) : p.descendants.Pairwise fun q q' => q.path < q'.path :=
  pairwise_elementsBelow p.path p.scope p.node

/-! ## Children -/

section Children

variable {p c d q : Place}

theorem exists_child_of_mem_descendants (h : q ∈ p.descendants) :
    ∃ c ∈ p.children, c.contains q = true := by
  obtain ⟨path, scope, n⟩ := p
  cases n with
  | element name attrs cs => exact exists_sibling_of_mem_elementsAmong h
  | text t => cases h
  | comment t => cases h
  | directive k t => cases h

/-- Two children that contain the same place are one. -/
theorem path_eq_of_contains (hc : c ∈ p.children) (hd : d ∈ p.children)
    (hcq : c.contains q = true) (hdq : d.contains q = true) : c.path = d.path := by
  obtain ⟨j, -, hj⟩ := exists_index_of_mem_siblings hc
  obtain ⟨k, -, hk⟩ := exists_index_of_mem_siblings hd
  rw [contains, List.isPrefixOf_iff_prefix] at hcq hdq
  rw [hj] at hcq ⊢
  rw [hk] at hdq ⊢
  rw [index_eq_of_isPrefix hcq hdq]

end Children

/-! ## Below one another -/

section Below

variable {c q : Place}

mutual

theorem mem_elementsBelow_trans {path : List Nat} {scope : Scope} : {n : Node} →
    c ∈ elementsBelow path scope n → q ∈ c.descendants → q ∈ elementsBelow path scope n
  | .element _ _ _, hc, hq => mem_elementsAmong_trans hc hq
  | .text _, hc, _ => by cases hc
  | .comment _, hc, _ => by cases hc
  | .directive _ _, hc, _ => by cases hc

theorem mem_elementsAmong_trans {path : List Nat} {scope : Scope} {i : Nat} : {ns : List Node} →
    c ∈ elementsAmong path scope i ns → q ∈ c.descendants → q ∈ elementsAmong path scope i ns
  | [], hc, _ => by cases hc
  | n :: ns, hc, hq => by
    rw [elementsAmong, List.mem_append, List.mem_append] at hc ⊢
    rcases hc with (hc | hc) | hc
    · split at hc
      · rw [List.mem_singleton.mp hc] at hq
        exact .inl (.inr hq)
      · cases hc
    · exact .inl (.inr (mem_elementsBelow_trans hc hq))
    · exact .inr (mem_elementsAmong_trans hc hq)

end

/-- What is below a place that a search finds is below the place where the search began. -/
theorem mem_descendants_trans {p : Place} (hc : c ∈ p.descendants) (hq : q ∈ c.descendants) :
    q ∈ p.descendants := mem_elementsBelow_trans hc hq

mutual

theorem mem_of_isPrefix_below (h : c.path <+: q.path) {path : List Nat} {scope : Scope} :
    {n : Node} → c ∈ elementsBelow path scope n → q ∈ elementsBelow path scope n →
      q = c ∨ q ∈ c.descendants
  | .element _ _ _, hc, hq => mem_of_isPrefix_among h hc hq
  | .text _, hc, _ => by cases hc
  | .comment _, hc, _ => by cases hc
  | .directive _ _, hc, _ => by cases hc

theorem mem_of_isPrefix_among (h : c.path <+: q.path) {path : List Nat} {scope : Scope} {i : Nat} :
    {ns : List Node} → c ∈ elementsAmong path scope i ns → q ∈ elementsAmong path scope i ns →
      q = c ∨ q ∈ c.descendants
  | [], hc, _ => by cases hc
  | n :: ns, hc, hq => by
    -- the first node and what is below it are told from the rest by the index
    have hrest : ∀ p ∈ elementsAmong path scope (i + 1) ns, ¬path ++ [i] <+: p.path := by
      intro p hp hprefix
      obtain ⟨j, hij, hj⟩ := exists_index_of_mem_elementsAmong hp
      have heq := index_eq_of_isPrefix hprefix hj
      omega
    rw [elementsAmong, List.mem_append] at hc hq
    rcases hc with hc | hc
    · rcases hq with hq | hq
      · rcases List.mem_append.mp hc with hc | hc
        · rw [eq_of_mem_itself hc]
          rcases List.mem_append.mp hq with hq | hq
          · exact .inl (eq_of_mem_itself hq)
          · exact .inr hq
        · rcases List.mem_append.mp hq with hq | hq
          · have hle := h.length_le
            rw [eq_of_mem_itself hq] at hle
            exact absurd (length_lt_of_mem_elementsBelow hc) (Nat.not_lt.mpr hle)
          · exact mem_of_isPrefix_below h hc hq
      · exact absurd ((isPrefix_of_mem_first hc).trans h) (hrest q hq)
    · rcases hq with hq | hq
      · obtain ⟨j, hij, hj⟩ := exists_index_of_mem_elementsAmong hc
        have heq := index_eq_of_isPrefix (isPrefix_of_mem_first hq) (hj.trans h)
        omega
      · exact mem_of_isPrefix_among h hc hq

end

/-- An element whose path goes on from another one is that one or below it. -/
theorem mem_descendants_of_isPrefix {p : Place} (hc : c ∈ p.descendants) (hq : q ∈ p.descendants)
    (h : c.path <+: q.path) : q = c ∨ q ∈ c.descendants := mem_of_isPrefix_below h hc hq

end Below

/-! ## Searches -/

theorem eq_of_path_eq {p q q' : Place} (hq : q ∈ p.descendants) (hq' : q' ∈ p.descendants)
    (h : q.path = q'.path) : q = q' := by
  rcases mem_descendants_of_isPrefix hq hq' (h ▸ List.prefix_refl _) with heq | hbelow
  · exact heq.symm
  · have hlength := length_lt_of_mem_elementsBelow hbelow
    rw [h] at hlength
    omega

theorem path_le_of_find? {p a b : Place} {q : Place → Bool} (h : p.find? q = some a)
    (hb : b ∈ p.descendants) (hqb : q b = true) : a.path ≤ b.path := by
  obtain ⟨_, before, after, hsplit, hbefore⟩ := List.find?_eq_some_iff_append.mp h
  rw [hsplit] at hb
  rcases List.mem_append.mp hb with hb | hb
  · have hnot := hbefore b hb
    rw [hqb] at hnot
    cases hnot
  · rcases List.mem_cons.mp hb with rfl | hb
    · exact le_refl _
    · have hpairwise := p.pairwise_path_lt
      rw [hsplit, List.pairwise_append, List.pairwise_cons] at hpairwise
      exact le_of_lt (hpairwise.2.1.1 b hb)

end Hypermark.Place
