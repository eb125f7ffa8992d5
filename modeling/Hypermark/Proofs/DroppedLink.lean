import Hypermark.Proofs.Collapsing
import Hypermark.Proofs.Ink
import Hypermark.Proofs.Prose
import Hypermark.Proofs.Recursion

/-!
# What goes with a dropped link

Dropping a link prunes the buffer before it.  Where no text has a pipe there is no separator to
prune, but white space at the end of the buffer goes all the same, hard breaks with it.  So the rest
of the line comes out as if the link had never been there only if that white space did not matter:
`LosesNothing` says when, in terms of what stands at the seam.

`Appends` is the shape of everything that adds to a buffer without pipes: it puts the same fragments
at the end of every buffer, and may prune the buffer first.

* `Appends.comp`: a dropped link prunes past what was added before it if all of that is white space.
* `appends_addNodes`: a run of siblings prunes exactly if it opens with a dropped link.
* `collapse_prune_append_iff`: when pruning makes no difference to what follows.
* `dropped_link_leaves_rest_iff`: when a dropped link makes no difference to its siblings.
-/

namespace Hypermark

namespace Fragment

/-- Pruning goes past the fragment: white space that is no finished Markdown. -/
def isLoose : Fragment → Bool
  | text t => Text.allBlank t
  | hardBreak t => Text.allBlank t
  | markup _ => false

/-- Literal text without pipes, or no literal text at all. -/
def HasNoPipe : Fragment → Prop
  | text t => '|' ∉ t
  | _ => True

end Fragment

namespace Buffer

open Text Inline

/-- There is no pipe in the literal text of a buffer. -/
def NoPipes (b : Buffer) : Prop := ∀ f ∈ b, f.HasNoPipe

/-- The white space at the end of a buffer that pruning takes away. -/
def loose (b : Buffer) : Buffer := b.rtakeWhile Fragment.isLoose

theorem noPipes_nil : NoPipes [] := fun _ hf => absurd hf List.not_mem_nil

theorem noPipes_append {a b : Buffer} : NoPipes (a ++ b) ↔ NoPipes a ∧ NoPipes b :=
  List.forall_mem_append

theorem noPipes_singleton {f : Fragment} : NoPipes [f] ↔ f.HasNoPipe := List.forall_mem_singleton ..

/-! ## Pruning without pipes -/

theorem pruneText_of_no_pipe {t : Text} (h : '|' ∉ t) : pruneText t = t := by
  rw [pruneText, if_neg]
  rw [beq_iff_eq]
  intro hlast
  exact h ((List.rdropWhile_prefix isBlank t).subset (List.mem_of_getLast? hlast))

theorem pruneEnd_eq {fs : List Fragment} (h : ∀ f ∈ fs, f.HasNoPipe) :
    pruneEnd fs = fs.dropWhile Fragment.isLoose := by
  induction fs with
  | nil => rfl
  | cons f fs ih =>
    rw [List.forall_mem_cons] at h
    cases f with
    | markup m => rfl
    | text t =>
      rw [pruneEnd, pruneText_of_no_pipe h.1, List.dropWhile_cons, ih h.2]
      rfl
    | hardBreak t =>
      rw [pruneEnd, List.dropWhile_cons, ih h.2]
      rfl

theorem prune_eq {b : Buffer} (h : NoPipes b) : b.prune = b.rdropWhile Fragment.isLoose := by
  rw [prune, pruneEnd_eq fun f hf => h f (List.mem_reverse.mp hf)]
  rfl

theorem prune_append_loose {b : Buffer} (h : NoPipes b) : b.prune ++ b.loose = b := by
  rw [prune_eq h]
  exact List.rdropWhile_append_rtakeWhile ..

theorem NoPipes.prune {b : Buffer} (h : NoPipes b) : NoPipes b.prune := by
  rw [prune_eq h]
  exact fun f hf => h f ((List.rdropWhile_prefix _ b).subset hf)

theorem NoPipes.prune_if {b : Buffer} (h : NoPipes b) (pruned : Bool) :
    NoPipes (if pruned then b.prune else b) := by
  cases pruned with
  | false => exact h
  | true => exact h.prune

theorem prune_prune {b : Buffer} (h : NoPipes b) : b.prune.prune = b.prune := by
  rw [prune_eq h.prune, prune_eq h]
  exact List.rdropWhile_idempotent ..

/-- Pruning goes on past a part that is white space altogether. -/
theorem prune_append {a b : Buffer} (ha : NoPipes a) (hb : NoPipes b) :
    (a ++ b).prune = if b.all Fragment.isLoose then a.prune else a ++ b.prune := by
  rw [prune_eq (noPipes_append.mpr ⟨ha, hb⟩), prune_eq ha, prune_eq hb]
  exact rdropWhile_append ..

theorem prune_of_all_loose {b : Buffer} (hb : NoPipes b) (h : b.all Fragment.isLoose = true) :
    b.prune = [] := by
  rw [prune_eq hb]
  exact List.rdropWhile_eq_nil_iff.mpr (List.all_eq_true.mp h)

/-! ## What adding does -/

/-- Adding to a buffer without pipes puts the same fragments at its end, after the buffer has been
pruned if `pruned`. -/
structure Appends (pruned : Bool) (add : Buffer → Buffer) : Prop where
  noPipes : NoPipes (add [])
  eq : ∀ {b}, NoPipes b → add b = (if pruned then b.prune else b) ++ add []

theorem appends_append {c : Buffer} (hc : NoPipes c) : Appends false (· ++ c) :=
  ⟨hc, fun _ => rfl⟩

theorem appends_prune : Appends true prune :=
  ⟨noPipes_nil, fun _ => (List.append_nil _).symm⟩

namespace Appends

variable {p q : Bool} {add add' : Buffer → Buffer}

theorem noPipes_add (h : Appends p add) {b : Buffer} (hb : NoPipes b) : NoPipes (add b) := by
  rw [h.eq hb]
  exact noPipes_append.mpr ⟨hb.prune_if p, h.noPipes⟩

/-- What prunes second reaches the buffer if all that was added first is white space. -/
theorem comp (h : Appends p add) (h' : Appends q add') :
    Appends (p || ((add []).all Fragment.isLoose && q)) (add' ∘ add) := by
  refine ⟨h'.noPipes_add h.noPipes, fun {b} hb => ?_⟩
  show add' (add b) = _ ++ add' (add [])
  rw [h'.eq (h.noPipes_add hb), h'.eq h.noPipes, h.eq hb, ← List.append_assoc]
  cases q with
  | false => rw [Bool.and_false, Bool.or_false]; rfl
  | true =>
    rw [if_pos rfl, if_pos rfl, prune_append (hb.prune_if p) h.noPipes, Bool.and_true]
    -- Either all that was added first is pruned away again, or pruning ends in it.
    by_cases hloose : (add []).all Fragment.isLoose = true
    · rw [if_pos hloose, hloose, Bool.or_true, if_pos rfl, prune_of_all_loose h.noPipes hloose,
        List.append_nil]
      cases p with
      | false => rfl
      | true => rw [if_pos rfl, prune_prune hb]
    · rw [if_neg hloose, Bool.eq_false_iff.mpr hloose, Bool.or_false]

theorem comp_append (h : Appends p add) (h' : Appends false add') : Appends p (add' ∘ add) := by
  have hcomp := h.comp h'
  rwa [Bool.and_false, Bool.or_false] at hcomp

end Appends

theorem appends_id : Appends false id := ⟨noPipes_nil, fun _ => (List.append_nil _).symm⟩

theorem appends_addText {t : Text} (h : '|' ∉ t) : Appends false (·.addText t) := by
  unfold addText
  split
  · exact appends_id
  · exact appends_append (noPipes_singleton.mpr h)

theorem appends_addMarkup (m : Text) : Appends false (·.addMarkup m) := by
  unfold addMarkup
  split
  · exact appends_id
  · exact appends_append (noPipes_singleton.mpr trivial)

theorem no_pipe_in_space : (Fragment.text [' ']).HasNoPipe :=
  fun hpipe => absurd (List.mem_singleton.mp hpipe) (by decide)

theorem appends_spaceIf (wanted : Bool) : Appends false (spaceIf wanted) := by
  unfold spaceIf
  cases wanted with
  | false => exact appends_id
  | true => exact appends_addText no_pipe_in_space

theorem appends_addSurrounded (child : Buffer) {c : Buffer} (hc : NoPipes c) :
    Appends false (·.addSurrounded child c) :=
  ((appends_spaceIf child.edges.1).comp_append (appends_append hc)).comp_append
    (appends_spaceIf child.edges.2)

theorem noPipes_collapsed {b : Buffer} (h : NoPipes b) : NoPipes (collapsed b) := by
  refine forall_mem_settle (fun _ => trivial) no_pipe_in_space fun f hf => ?_
  rcases of_piece_mem_atoms hf with ⟨m, rfl, _⟩ | ⟨t, run, rfl, ht, hrun, _⟩
  · trivial
  · intro hpipe
    have hmem : '|' ∈ (runs t).flatten := List.mem_flatten_of_mem hrun hpipe
    rw [flatten_runs] at hmem
    exact h _ ht hmem

theorem appends_addWrapped {child : Buffer} (h : NoPipes child) (delimiter : Text) :
    Appends false (·.addWrapped child delimiter) := by
  simp only [addWrapped]
  split
  · exact appends_spaceIf _
  · refine appends_addSurrounded child (noPipes_append.mpr ⟨List.forall_mem_cons.mpr ?_, ?_⟩)
    · exact ⟨trivial, noPipes_collapsed h⟩
    · exact noPipes_singleton.mpr trivial

theorem appends_addAnchor {label : Buffer} (h : NoPipes label) :
    Appends false (addAnchor · label) := by
  simp only [addAnchor]
  split
  · exact appends_spaceIf _
  · exact appends_addSurrounded label (noPipes_collapsed h)

theorem appends_addLink (label : Buffer) (href : Text) : Appends false (addLink · label href) :=
  appends_addSurrounded label (noPipes_singleton.mpr trivial)

/-! ## What pruning costs -/

/-- The white space that pruning takes away shows nothing and sets nothing apart that what is left
does not set apart as well. -/
structure LosesNothing (b c : Buffer) : Prop where
  loose : collapsed b.loose = []
  seam : seam b.prune c = seam b c

/-- What is loose comes out empty, or with something that is no white space of ASCII. -/
theorem collapsed_loose (b : Buffer) : collapsed b.loose = [] ∨ Solid (collapse b.loose) := by
  refine solid_settle fun f hf => ?_
  rcases of_piece_mem_atoms hf with ⟨m, rfl, hm⟩ | ⟨_, run, rfl, _, hmem, hrun⟩
  · cases List.mem_rtakeWhile_imp hm
  · exact solid_of_mem_runs hmem hrun

/-- Less its white space, a buffer that follows another adds to what is shown. -/
theorem ink_collapse_append (a b : Buffer) : ink (!isSpace ·) (collapse (a ++ b)) =
    ink (!isSpace ·) (collapse a) ++ ink (!isSpace ·) (collapse b) := by
  have hseam : ink (!isSpace ·) (Buffer.seam a b) = [] :=
    ink_eq_nil fun c hc => by rw [isSpace_of_mem_seam c hc]; rfl
  rw [collapse_append, ink_append, ink_append, hseam, List.append_nil]

/-- What follows comes out the same after pruning exactly if nothing is lost at the seam. -/
theorem collapse_prune_append_iff {b : Buffer} (hb : NoPipes b) (c : Buffer) :
    collapse (b.prune ++ c) = collapse (b ++ c) ↔ LosesNothing b c := by
  have hkept (h : collapsed b.loose = []) : collapse b = collapse b.prune := by
    have hseam : Buffer.seam b.prune b.loose = [] := if_pos (.inr h)
    have hnil : collapse b.loose = [] := congrArg raw h
    calc collapse b
      _ = collapse (b.prune ++ b.loose) := by rw [prune_append_loose hb]
      _ = collapse b.prune := by
        rw [collapse_append, hseam, hnil, List.append_nil, List.append_nil]
  constructor
  · intro heq
    have hloose : collapsed b.loose = [] := by
      refine (collapsed_loose b).resolve_right fun hsolid => ?_
      -- Less white space, the pruned part is all that the two sides differ in.
      have hsplit : ink (!isSpace ·) (collapse b) =
          ink (!isSpace ·) (collapse b.prune) ++ ink (!isSpace ·) (collapse b.loose) := by
        rw [← ink_collapse_append, prune_append_loose hb]
      have hink := congrArg (ink (!isSpace ·)) heq
      rw [ink_collapse_append, ink_collapse_append, hsplit] at hink
      have hnone := List.self_eq_append_right.mp (List.append_cancel_right hink)
      obtain ⟨d, s, hd, hspace⟩ := hsolid.starts
      have hshown : d ∈ ink (!isSpace ·) (collapse b.loose) :=
        List.mem_filter.mpr ⟨hd ▸ List.mem_cons_self .., by rw [hspace]; rfl⟩
      rw [hnone] at hshown
      exact List.not_mem_nil hshown
    refine ⟨hloose, ?_⟩
    rw [collapse_append, collapse_append, hkept hloose] at heq
    exact List.append_cancel_left (List.append_cancel_right heq)
  · intro h
    rw [collapse_append, collapse_append, hkept h.loose, h.seam]

end Buffer

/-! ## Nodes -/

namespace Inline

open Buffer Node

/-- A link whose destination is rejected. -/
def isDropped (n : Node) : Bool :=
  n.role == .link && !(hrefOf n).isEmpty && !Link.isSafe (hrefOf n)

theorem addNode_of_isDropped {a : Node} (h : isDropped a = true) (scope : Scope) (b : Buffer) :
    addNode scope a b = (b.prune, true) := by
  rw [isDropped, Bool.and_eq_true, Bool.and_eq_true, beq_iff_eq, Bool.not_eq_true',
    Bool.not_eq_true'] at h
  obtain ⟨⟨hrole, hhref⟩, hsafe⟩ := h
  cases a with
  | element name attrs cs => simp only [addNode, hrole, hhref, hsafe, Bool.false_eq_true, if_false]
  | text t => cases hrole
  | comment t => cases hrole
  | directive k t => cases hrole

theorem isSeparator_of_isDropped {a : Node} (h : isDropped a = true) : isSeparator a = false := by
  cases a with
  | text t => cases h
  | element name attrs cs => rfl
  | comment t => rfl
  | directive k t => rfl

mutual

/-- A dropped link comes first in what the node adds to the buffer; white space before it does not
count. -/
def opensDropped (scope : Scope) : Node → Bool
  | .element name attrs cs =>
    let n := Node.element name attrs cs
    match n.role with
    | .ignored | .lineBreak | .image | .strong | .emphasis | .code => false
    | .link => isDropped n
    | _ => opensDroppedAmong (name :: scope) cs
  | _ => false

def opensDroppedAmong (scope : Scope) : List Node → Bool
  | [] => false
  | n :: ns =>
    opensDropped scope n ||
      ((addNode scope n []).1.all Fragment.isLoose && opensDroppedAmong scope ns)

end

/-- What was dropped before siblings matters only if they start with a bare separator. -/
theorem addNodes_of_head (scope : Scope) (dropped : Bool) {ns : List Node}
    (h : ns.head?.any isSeparator = false) (b : Buffer) :
    addNodes scope dropped ns b = addNodes scope false ns b := by
  cases ns with
  | nil => rw [addNodes_nil, addNodes_nil]
  | cons n ns =>
    have hn : isSeparator n = false := h
    rw [addNodes, addNodes, hn, Bool.and_false, Bool.and_false]

theorem addNodes_append (scope : Scope) (dropped : Bool) (xs : List Node) {ys : List Node}
    (h : ys.head?.any isSeparator = false) (b : Buffer) :
    addNodes scope dropped (xs ++ ys) b = addNodes scope false ys (addNodes scope dropped xs b) := by
  induction xs generalizing dropped b with
  | nil => rw [List.nil_append, addNodes_nil, addNodes_of_head scope dropped h]
  | cons x xs ih =>
    rw [List.cons_append, addNodes, addNodes]
    split
    · exact ih _ _
    · exact ih _ _

theorem isSeparator_of_no_pipe {n : Node} (h : '|' ∉ n.visibleText) : isSeparator n = false := by
  cases n with
  | text t =>
    refine beq_eq_false_iff_ne.mpr fun htrim => h ?_
    have hmem : '|' ∈ t := (Text.infix_trim t).subset (htrim ▸ List.mem_singleton_self _)
    rw [visibleText]
    exact List.mem_flatMap.mpr ⟨'|', hmem, List.mem_singleton_self _⟩
  | element name attrs cs => rfl
  | comment t => rfl
  | directive k t => rfl

theorem head_of_no_pipe {ns : List Node} (h : '|' ∉ visibleTexts ns) :
    ns.head?.any isSeparator = false := by
  cases ns with
  | nil => rfl
  | cons n ns =>
    rw [visibleTexts, List.mem_append, not_or] at h
    exact isSeparator_of_no_pipe h.1

/-- A node without pipes prunes the buffer if it opens with a dropped link, and adds the same to
every buffer. -/
def AddsAlike (n : Node) : Prop :=
  '|' ∉ n.visibleText → ∀ scope, Appends (opensDropped scope n) fun b => (addNode scope n b).1

theorem appends_addNodes {ns : List Node} (h : ∀ n ∈ ns, n.Throughout AddsAlike)
    (hpipe : '|' ∉ visibleTexts ns) (scope : Scope) :
    Appends (opensDroppedAmong scope ns) (addNodes scope false ns) := by
  induction ns with
  | nil =>
    have hadd : addNodes scope false [] = id := funext (addNodes_nil scope false)
    rw [hadd, opensDroppedAmong]
    exact appends_id
  | cons n ns ih =>
    rw [List.forall_mem_cons] at h
    rw [visibleTexts, List.mem_append, not_or] at hpipe
    have hadd : addNodes scope false (n :: ns) =
        addNodes scope false ns ∘ fun b => (addNode scope n b).1 := by
      funext b
      rw [addNodes_cons]
      exact addNodes_of_head scope _ (head_of_no_pipe hpipe.2) _
    rw [hadd, opensDroppedAmong]
    exact (h.1.here hpipe.1 scope).comp (ih h.2 hpipe.2)

theorem addsAlike (n : Node) : n.Throughout AddsAlike := by
  refine Node.throughout (fun n h => ?_) n
  intro hpipe scope
  cases n with
  | text t =>
    rw [visibleText] at hpipe
    simp only [addNode, opensDropped]
    exact appends_addText hpipe
  | comment t =>
    simp only [addNode, opensDropped]
    exact appends_id
  | directive k t =>
    simp only [addNode, opensDropped]
    exact appends_id
  | element name attrs cs =>
    by_cases hi : (element name attrs cs).role = .ignored
    · simp only [addNode, opensDropped, hi]
      exact appends_id
    rw [visibleText_of_element rfl hi] at hpipe
    have hchildren := appends_addNodes h hpipe (name :: scope)
    have hlabel : NoPipes (addNodes (name :: scope) false cs []) := hchildren.noPipes
    cases hrole : (element name attrs cs).role with
    | ignored => exact absurd hrole hi
    | link =>
      simp only [addNode, opensDropped, hrole, isDropped]
      by_cases hhref : (hrefOf (element name attrs cs)).isEmpty = true
      · simp only [hhref]
        exact appends_addAnchor hlabel
      by_cases hsafe : Link.isSafe (hrefOf (element name attrs cs)) = true
      · simp only [hhref, hsafe]
        exact appends_addLink _ _
      · simp only [hhref, hsafe]
        exact appends_prune
    | lineBreak =>
      simp only [addNode, opensDropped, hrole]
      exact appends_append (noPipes_singleton.mpr trivial)
    | image =>
      simp only [addNode, opensDropped, hrole]
      exact appends_addMarkup _
    | strong =>
      simp only [addNode, opensDropped, hrole]
      exact appends_addWrapped hlabel strongMark
    | emphasis =>
      simp only [addNode, opensDropped, hrole]
      exact appends_addWrapped hlabel emphasisMark
    | code =>
      simp only [addNode, opensDropped, hrole]
      exact appends_addMarkup _
    | _ =>
      simp only [addNode, opensDropped, hrole]
      exact hchildren

theorem appends_siblings {ns : List Node} (h : '|' ∉ visibleTexts ns) (scope : Scope) :
    Appends (opensDroppedAmong scope ns) (addNodes scope false ns) :=
  appends_addNodes (fun n _ => addsAlike n) h scope

theorem buffer_append (scope : Scope) {xs ys : List Node} (hxs : '|' ∉ visibleTexts xs)
    (hys : '|' ∉ visibleTexts ys) : buffer scope (xs ++ ys) =
      (if opensDroppedAmong scope ys then (buffer scope xs).prune else buffer scope xs) ++
        buffer scope ys := by
  rw [buffer, addNodes_append scope false xs (head_of_no_pipe hys)]
  exact (appends_siblings hys scope).eq (appends_siblings hxs scope).noPipes

/-- A dropped link prunes what is before it, whatever comes after it. -/
theorem buffer_append_dropped (scope : Scope) {xs ys : List Node} {a : Node}
    (ha : isDropped a = true) (hxs : '|' ∉ visibleTexts xs) (hys : '|' ∉ visibleTexts ys) :
    buffer scope (xs ++ a :: ys) = (buffer scope xs).prune ++ buffer scope ys := by
  have hbefore : NoPipes (buffer scope xs) := (appends_siblings hxs scope).noPipes
  have hhead : (a :: ys).head?.any isSeparator = false := isSeparator_of_isDropped ha
  rw [buffer, addNodes_append scope false xs hhead, ← buffer, addNodes_cons, addNode_of_isDropped ha,
    addNodes_of_head scope true (head_of_no_pipe hys),
    (appends_siblings hys scope).eq hbefore.prune, prune_prune hbefore, ite_self]
  rfl

/-- A dropped link between texts without pipes makes no difference to its siblings exactly if they
open with another one behind it, or if the white space that is pruned before it does not matter at
the seam. -/
theorem dropped_link_leaves_rest_iff (scope : Scope) {xs ys : List Node} {a : Node}
    (ha : isDropped a = true) (hxs : '|' ∉ visibleTexts xs) (hys : '|' ∉ visibleTexts ys) :
    collapse scope (xs ++ a :: ys) = collapse scope (xs ++ ys) ↔
      opensDroppedAmong scope ys = true ∨ LosesNothing (buffer scope xs) (buffer scope ys) := by
  rw [collapse, collapse, buffer_append_dropped scope ha hxs hys, buffer_append scope hxs hys]
  by_cases hopens : opensDroppedAmong scope ys = true
  · rw [if_pos hopens]
    exact iff_of_true rfl (.inl hopens)
  · rw [if_neg hopens, or_iff_right hopens]
    exact collapse_prune_append_iff (appends_siblings hxs scope).noPipes _

/-- A link behind a word is dropped with the line break after it kept. -/
theorem dropped_link_leaves_sentence :
    let link := Node.element "a".toList [("href".toList, some "javascript:x".toList)]
      [.text "l|m".toList]
    let before : List Node := [.text "See ".toList]
    let after : List Node := [.element "br".toList [] [], .text "now".toList]
    isDropped link = true ∧ '|' ∉ visibleTexts before ∧ '|' ∉ visibleTexts after ∧
      collapse [] (before ++ link :: after) = collapse [] (before ++ after) :=
  ⟨by decide, by decide, by decide,
    (dropped_link_leaves_rest_iff [] (by decide) (by decide) (by decide)).mpr
      (.inr ⟨by decide, by decide⟩)⟩

/-- A line break before the link goes with it, so two lines are glued into one word. -/
theorem dropped_link_glues_lines :
    let link := Node.element "a".toList [("href".toList, some "javascript:x".toList)]
      [.text "l".toList]
    let before : List Node := [.text "foo".toList, .element "br".toList [] []]
    let after : List Node := [.text "bar".toList]
    isDropped link = true ∧ '|' ∉ visibleTexts before ∧ '|' ∉ visibleTexts after ∧
      collapse [] (before ++ link :: after) = "foobar".toList ∧
      collapse [] (before ++ after) = "foo\nbar".toList := by
  decide

end Inline

end Hypermark
