import Hypermark.Proofs.OpenLists
import Hypermark.Proofs.Word

/-!
# Blocks and their neighbours

A block ends the run before it, and the run behind it begins anew.  So siblings with a block among
them are rendered in three parts, each as if it stood alone, and an empty part leaves no gap.

The induction is on the siblings before the block, with the run that is pending so far; that no part
of the result is empty makes the join of the three the join of them all.

* `blocks_append_block`: the parts before, of and behind a block.
* `joinBlocks_flatten`: groups of parts may be joined one by one.
* `siblings_around_block`: the same for the text, whatever lists are open.
-/

namespace Hypermark

open Text Traced

/-! ## Groups of parts -/

namespace Text

theorem joinBlocks_eq_nil_iff {ts : List Text} (h : ∀ t ∈ ts, t ≠ []) :
    joinBlocks ts = [] ↔ ts = [] := by
  constructor
  · intro hjoin
    by_contra hne
    obtain ⟨t, rest, rfl⟩ := List.exists_cons_of_ne_nil hne
    have hpiece : t <:+: joinBlocks (t :: rest) := infix_joinBlocks (List.mem_cons_self ..)
    rw [hjoin, List.infix_nil] at hpiece
    exact h t (List.mem_cons_self ..) hpiece
  · rintro rfl
    rfl

theorem joinBlocks_cons {us : List Text} (h : us ≠ []) (t : Text) :
    joinBlocks (t :: us) = t ++ ['\n', '\n'] ++ joinBlocks us := by
  obtain ⟨u, us, rfl⟩ := List.exists_cons_of_ne_nil h
  exact List.intercalate_cons_cons

theorem joinBlocks_append {ts us : List Text} (ht : ts ≠ []) (hu : us ≠ []) :
    joinBlocks (ts ++ us) = joinBlocks ts ++ ['\n', '\n'] ++ joinBlocks us := by
  induction ts with
  | nil => exact absurd rfl ht
  | cons t ts ih =>
    by_cases hts : ts = []
    · have hsingle : joinBlocks [t] = t := List.intercalate_singleton
      rw [hts, hsingle]
      exact joinBlocks_cons hu t
    · rw [List.cons_append, joinBlocks_cons (List.append_ne_nil_of_left_ne_nil hts us), ih hts,
        joinBlocks_cons hts]
      simp only [List.append_assoc]

/-- Parts that are joined group by group, the empty groups left out. -/
theorem joinBlocks_flatten {groups : List (List Text)} (h : ∀ ts ∈ groups, ∀ t ∈ ts, t ≠ []) :
    joinBlocks groups.flatten = joinBlocks ((groups.map joinBlocks).filter (!·.isEmpty)) := by
  induction groups with
  | nil => rfl
  | cons ts groups ih =>
    rw [List.forall_mem_cons] at h
    have hall : ∀ t ∈ groups.flatten, t ≠ [] := by
      intro t ht
      obtain ⟨us, hus, hmem⟩ := List.mem_flatten.mp ht
      exact h.2 us hus t hmem
    have hrest := ih h.2
    rw [List.flatten_cons, List.map_cons, List.filter_cons]
    by_cases hts : ts = []
    · rw [hts, List.nil_append]
      exact hrest
    · have hjoin : joinBlocks ts ≠ [] := fun hnil => hts ((joinBlocks_eq_nil_iff h.1).mp hnil)
      rw [if_pos (by simpa using hjoin)]
      have hempty : (groups.map joinBlocks).filter (!·.isEmpty) = [] ↔ groups.flatten = [] := by
        rw [← joinBlocks_eq_nil_iff hall, hrest, joinBlocks_eq_nil_iff]
        intro t ht
        simpa using (List.mem_filter.mp ht).2
      by_cases hflat : groups.flatten = []
      · rw [hflat, List.append_nil, hempty.mpr hflat]
        exact List.intercalate_singleton.symm
      · rw [joinBlocks_append hts hflat, hrest, joinBlocks_cons fun hnil => hflat (hempty.mp hnil)]

end Text

/-! ## Parts -/

theorem Traced.bind_congr_of_ok {α β : Type} {x : Traced α} {f g : α → Traced β}
    (h : ∀ a, x.outcome = .ok a → f a = g a) : x.bind f = x.bind g := by
  unfold Traced.bind
  cases hx : x.outcome with
  | error e => rfl
  | ok a => dsimp only; rw [h a hx]

namespace Render

variable {opts : Options} {scope : Scope}

theorem ne_nil_of_mem_part {t u : Text} (h : u ∈ part t) : u ≠ [] := by
  rw [part] at h
  split at h
  · cases h
  · rename_i hblank
    rw [List.mem_singleton.mp h]
    rintro rfl
    exact hblank rfl

theorem ne_nil_of_mem_run {nodes : List Node} {ts : List Text}
    (h : (run scope nodes).outcome = .ok ts) : ∀ t ∈ ts, t ≠ [] := by
  obtain rfl := Except.ok.inj h
  intro t ht
  split at ht
  · cases ht
  · rename_i hempty
    rw [List.mem_singleton.mp ht]
    simpa using hempty

/-- Siblings have no part that is empty. -/
theorem ne_nil_of_mem_blocks {keep : Nat → Bool} {pending ns : List Node} {ts : List Text}
    (h : (blocks opts scope keep pending ns).outcome = .ok ts) : ∀ t ∈ ts, t ≠ [] := by
  induction ns generalizing keep pending ts with
  | nil =>
    rw [blocks_nil] at h
    exact ne_nil_of_mem_run h
  | cons n ns ih =>
    rw [blocks] at h
    split at h
    · exact ih h
    · split at h
      · simp only [bind_outcome_eq_ok_iff] at h
        obtain ⟨before, hbefore, t, _, rest, hrest, h⟩ := h
        obtain rfl := Except.ok.inj h
        rw [List.forall_mem_append, List.forall_mem_append]
        exact ⟨⟨ne_nil_of_mem_run hbefore, fun _ => ne_nil_of_mem_part⟩, ih hrest⟩
      · split at h
        · exact ih h
        · exact ih h

theorem blocks_block {b : Node} (hb : b.isBlock = true) (pending ns : List Node) :
    blocks opts scope keepAll pending (b :: ns) =
      (run scope pending).bind fun before =>
        (block opts scope b).bind fun t =>
          (blocks opts scope keepAll [] ns).bind fun rest =>
            Traced.pure (before ++ part t ++ rest) := by
  rw [blocks, if_neg (by decide), if_pos hb]
  rfl

/-- A block parts its siblings: those before it end their last run, those behind it have a run of
their own. -/
theorem blocks_append_block {b : Node} (hb : b.isBlock = true) (pending xs ys : List Node) :
    blocks opts scope keepAll pending (xs ++ b :: ys) =
      (blocks opts scope keepAll pending xs).bind fun before =>
        (block opts scope b).bind fun t =>
          (blocks opts scope keepAll [] ys).bind fun after =>
            Traced.pure (before ++ part t ++ after) := by
  induction xs generalizing pending with
  | nil => rw [List.nil_append, blocks_block hb, blocks_nil]
  | cons x xs ih =>
    by_cases hx : x.isBlock = true
    · rw [List.cons_append, blocks_block hx, blocks_block hx, ih]
      simp only [Traced.bind_assoc, Traced.pure_bind, List.append_assoc]
    · have hrest : ∀ ns, blocks opts scope keepAll pending (x :: ns) =
          blocks opts scope keepAll (if isShown x then pending ++ [x] else pending) ns := by
        intro ns
        rw [blocks, if_neg (by decide), if_neg hx]
        split
        · rfl
        · rfl
      rw [List.cons_append, hrest, hrest, ih]

/-! ## Texts -/

/-- What stands before a block, the block and what stands behind it, with a blank line between each
two of them that are there; a block that is only white space is not. -/
def around (before block after : Text) : Text :=
  joinBlocks ([before, if allBlank block then [] else block, after].filter (!·.isEmpty))

theorem joinBlocks_part (t : Text) : joinBlocks (part t) = if allBlank t then [] else t := by
  rw [part]
  split
  · rfl
  · exact List.intercalate_singleton

theorem joinBlocks_around {before after : List Text} (hbefore : ∀ t ∈ before, t ≠ [])
    (hafter : ∀ t ∈ after, t ≠ []) (t : Text) :
    joinBlocks (before ++ part t ++ after) = around (joinBlocks before) t (joinBlocks after) := by
  have hgroups : ∀ ts ∈ [before, part t, after], ∀ t ∈ ts, t ≠ [] :=
    List.forall_mem_cons.mpr ⟨hbefore, List.forall_mem_cons.mpr
      ⟨fun _ => ne_nil_of_mem_part, (List.forall_mem_singleton ..).mpr hafter⟩⟩
  have hjoin := joinBlocks_flatten hgroups
  simp only [List.flatten_cons, List.flatten_nil, List.append_nil, List.map_cons, List.map_nil,
    joinBlocks_part] at hjoin
  rw [List.append_assoc, hjoin, around]

theorem siblings_append_block {b : Node} (hb : b.isBlock = true) (xs ys : List Node) :
    siblings opts scope (xs ++ b :: ys) =
      (siblings opts scope xs).bind fun before =>
        (block opts scope b).bind fun t =>
          (siblings opts scope ys).bind fun after => Traced.pure (around before t after) := by
  have hsiblings : ∀ ns, siblings opts scope ns =
      (blocks opts scope keepAll [] ns).bind (Traced.pure ∘ joinBlocks) := fun _ => rfl
  rw [hsiblings, hsiblings, hsiblings, blocks_append_block hb]
  simp only [Traced.bind_assoc, Traced.pure_bind, Function.comp]
  refine bind_congr_of_ok fun before hbefore => bind_congr_of_ok fun t _ =>
    bind_congr_of_ok fun after hafter => congrArg _ ?_
  exact joinBlocks_around (ne_nil_of_mem_blocks hbefore) (ne_nil_of_mem_blocks hafter) t

end Render

/-! ## Open lists -/

namespace Session

/-- Siblings as Markdown, a blank line between each two blocks. -/
def siblings (opts : Options) (scope : Scope) (nodes : List Node) : Session Text :=
  (blocks opts scope Render.keepAll [] nodes).bind (pure ∘ joinBlocks)

theorem follows_siblings (opts : Options) (scope : Scope) (nodes : List Node) :
    Follows (siblings opts scope nodes) (Render.siblings opts scope nodes) :=
  follows_bind (follows_blocks fun n _ => steady n) fun _ => follows_pure _

end Session

/-- Siblings with a block among them are the block between what its neighbours are on their own.  No
list that is open anywhere makes a difference to one of the three, and the lists that are open
afterwards are those that were open before. -/
theorem siblings_around_block (opts : Options) (scope : Scope) (xs ys : List Node) (b : Node)
    (hb : b.isBlock = true) :
    (Render.siblings opts scope (xs ++ b :: ys) =
      (Render.siblings opts scope xs).bind fun before =>
        (Render.block opts scope b).bind fun t =>
          (Render.siblings opts scope ys).bind fun after =>
            Traced.pure (Render.around before t after)) ∧
    ∀ lists above inner below : List ListContext,
      Session.siblings opts scope (xs ++ b :: ys) lists =
        (do
          let before ← (Session.siblings opts scope xs above).1
          let t ← (Session.block opts scope b inner).1
          let after ← (Session.siblings opts scope ys below).1
          return Render.around before t after, lists) := by
  have hsplit : Render.siblings opts scope (xs ++ b :: ys) = _ :=
    Render.siblings_append_block hb xs ys
  refine ⟨hsplit, fun lists above inner below => ?_⟩
  have hsiblings : ∀ ns lists, Session.siblings opts scope ns lists =
      ((Render.siblings opts scope ns).outcome, lists) := fun ns =>
    Session.follows_iff.mp (Session.follows_siblings opts scope ns)
  have hblock : Session.block opts scope b inner = ((Render.block opts scope b).outcome, inner) :=
    Session.follows_iff.mp ((Session.steady b).here.block scope) inner
  rw [hsiblings, hsiblings, hsiblings, hblock, hsplit]
  refine congrArg (·, lists) ?_
  refine (Traced.outcome_bind _ _).trans (congrArg _ (funext fun before => ?_))
  refine (Traced.outcome_bind _ _).trans (congrArg _ (funext fun t => ?_))
  exact Traced.outcome_bind _ _

/-- A paragraph between two numbered lists, inside of an item that takes the number 7. -/
theorem paragraph_parts_lists :
    let before : List Node := [.text "a".toList,
      .element "ol".toList [("start".toList, some "5".toList)]
        [.element "li".toList [] [.text "b".toList]]]
    let p := Node.element "p".toList [] [.text "c".toList]
    let after : List Node := [.element "ol".toList [] [.element "li".toList [] [.text "d".toList]],
      .text "e".toList]
    let lists : List ListContext := [⟨true, 7⟩]
    p.isBlock = true ∧
      Session.siblings Options.standard [] (before ++ p :: after) lists =
        (.ok "a\n\n5. b\n\nc\n\n1. d\n\ne".toList, lists) :=
  ⟨rfl, (siblings_around_block Options.standard [] _ _ _ rfl).2 _ [] [] []⟩

end Hypermark
