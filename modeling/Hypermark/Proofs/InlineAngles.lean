import Hypermark.Proofs.InlineTally
import Hypermark.Proofs.OpeningAngles

/-!
# Angle brackets of a run

Literal text is escaped, so every opening angle bracket of a run comes from a link or an image: from
its destination, if that is written in angle brackets, or from a text that it takes over.  If none of
these texts has one, all that are left open a destination.

* `takenAll_eq_brackets_iff`: the brackets of references without any in their texts.
* `count_collapse_angles`, `anglesOpen_collapse`: how many a run has, and where.
-/

namespace Hypermark

open Text

namespace Inline

open Buffer Node

/-- Nothing that the links and images take over has an opening angle bracket. -/
def Clean (refs : List Node) : Prop := ∀ n ∈ refs, ∀ s ∈ takenTexts n, '<' ∉ s

theorem Clean.of_subset {refs refs' : List Node} (h : Clean refs) (hsub : refs' ⊆ refs) :
    Clean refs' := fun n hn => h n (hsub hn)

/-! ## Counting -/

/-- What is taken over adds to the brackets around destinations exactly if it has any. -/
theorem takenAll_eq_brackets_iff (refs : List Node) :
    takenAll '<' refs = (refs.filter isBracketed).length ↔ Clean refs := by
  have hsum : takenAll '<' refs = (refs.map fun n => ((takenTexts n).map (List.count '<')).sum).sum +
      (refs.filter isBracketed).length := by
    induction refs with
    | nil => rfl
    | cons n refs ih =>
      have hone : ((refs.cons n).filter isBracketed).length =
          (if isBracketed n then ['<'].count '<' else 0) + (refs.filter isBracketed).length := by
        rw [List.filter_cons]
        split
        · rw [List.length_cons, Nat.add_comm]
          rfl
        · rw [Nat.zero_add]
      rw [takenAll_cons, taken, ih, hone, List.map_cons, List.sum_cons]
      omega
  have hzero : (refs.map fun n => ((takenTexts n).map (List.count '<')).sum).sum = 0 ↔ Clean refs := by
    simp only [List.sum_eq_zero_iff_forall_eq_nat, List.forall_mem_map, List.count_eq_zero, Clean]
  rw [hsum, ← hzero]
  omega

theorem feedCount_less (n : Nat) : feedCount '<' n = 0 :=
  List.count_eq_zero.mpr fun hmem => by cases List.eq_of_mem_replicate hmem

/-- A run has the brackets that its links and images bring in. -/
theorem count_collapse_angles (scope : Scope) {ns : List Node} (hcode : CodeSpares '<' (tagsAll ns)) :
    (collapse scope ns).count '<' = takenAll '<' (referencesAmong ns) := by
  have hcount := count_collapse foreign_less scope hcode
  rw [feedCount_less, Nat.add_zero] at hcount
  exact Nat.le_antisymm hcount.2 hcount.1

/-! ## Links and images -/

theorem anglesOpen_destination {url : Text} (h : '<' ∉ url) :
    AnglesOpen ("](".toList ++ Markdown.formatDestination url) := by
  rw [Markdown.formatDestination]
  split
  · rw [anglesOpen_iff]
    have hrest : '<' ∉ url ++ ['>'] := fun hmem =>
      (List.mem_append.mp hmem).elim h (by decide)
    exact ⟨by decide, by decide, fun _ => rfl, opensFrom_of_no_angle hrest _⟩
  · refine anglesOpen_of_no_angle fun hmem => ?_
    exact (List.mem_append.mp hmem).elim (by decide) h

theorem anglesOpen_linkMarkup {label href : Text} (hlabel : AnglesOpen label) (h : '<' ∉ href) :
    AnglesOpen (linkMarkup label href) := by
  have hopen : AnglesOpen ['['] := anglesOpen_of_no_angle (by decide)
  have hclose : AnglesOpen [')'] := anglesOpen_of_no_angle (by decide)
  have hall := ((hopen.append hlabel).append (anglesOpen_destination h)).append hclose
  rwa [← List.append_assoc] at hall

theorem anglesOpen_imageMarkup {n : Node} (hn : n.role = .image) (h : Clean (references n)) :
    AnglesOpen (imageMarkup n) := by
  have hlink : n.role ≠ .link := by
    rw [hn]
    decide
  rw [imageMarkup]
  split
  · exact anglesOpen_of_no_angle List.not_mem_nil
  · rename_i hwritten
    have hrefs : references n = [n] := by
      cases n with
      | element name attrs cs => simp only [references, hn, if_neg hwritten]
      | text t => cases hn
      | comment t => cases hn
      | directive k t => cases hn
    rw [hrefs] at h
    have htaken := h n (List.mem_cons_self ..)
    simp only [takenTexts, if_neg hlink, List.forall_mem_cons] at htaken
    obtain ⟨halt, hsource, htitle, -⟩ := htaken
    have hlabel : AnglesOpen (altLabel n) := by
      refine anglesOpen_of_no_angle ?_
      rw [← List.count_eq_zero] at halt ⊢
      rw [altLabel, foreign_less.count_escapeLabel, halt]
    have hpart : AnglesOpen (titlePart (n.attributeOrEmpty "title".toList)) := by
      refine anglesOpen_of_no_angle ?_
      rw [← List.count_eq_zero] at htitle ⊢
      rw [foreign_less.count_titlePart, htitle]
    have hopen : AnglesOpen "![".toList := anglesOpen_of_no_angle (by decide)
    have hclose : AnglesOpen [')'] := anglesOpen_of_no_angle (by decide)
    have hall := (((hopen.append hlabel).append (anglesOpen_destination hsource)).append hpart).append
      hclose
    rwa [← List.append_assoc] at hall

/-! ## Buffers -/

/-- Finished Markdown in which all opening angle brackets open destinations. -/
def Opens : Fragment → Prop
  | .markup m => AnglesOpen m
  | _ => True

theorem ofMarkup_opens : OfMarkup Opens := ⟨fun _ => trivial, fun _ => trivial⟩

theorem anglesOpen_collapseWith {b : Buffer} (hquiet : Quiet '<' b) (h : ∀ g ∈ b, Opens g)
    (escape : Text → Text) (hescape : ∀ t, '<' ∉ t → '<' ∉ escape t) :
    AnglesOpen (collapseWith escape b) := by
  have hbreak : ∀ n, AnglesOpen (List.replicate n '\n') := fun n =>
    anglesOpen_of_no_angle fun hmem => by cases List.eq_of_mem_replicate hmem
  have hpieces : ∀ f ∈ collapsedWith escape b, AnglesOpen f.content := by
    refine forall_mem_settle hbreak (anglesOpen_of_no_angle (by decide)) fun f hf => ?_
    rcases of_piece_mem_atoms hf with ⟨m, rfl, hm⟩ | ⟨t, run, rfl, ht, hrun, hspace⟩
    · exact h _ hm
    · refine anglesOpen_of_no_angle (hescape run fun hmem => ?_)
      have hless := no_space_of_mem_runs hrun hspace _ hmem
      rw [hquiet t ht (by rw [← flatten_runs t]; exact List.mem_flatten_of_mem hrun hmem)] at hless
      cases hless
  rw [collapseWith, raw, List.flatMap_def]
  exact .flatten (List.forall_mem_map.mpr hpieces)

/-! ## Adding nodes -/

mutual

theorem opens_addNode (scope : Scope) : (n : Node) → CodeSpares '<' n.tags → Clean (references n) →
    (b : Buffer) → (∀ g ∈ b, Opens g) → ∀ g ∈ (addNode scope n b).1, Opens g
  | .text t, _, _, b, h => ofMarkup_opens.addText h _
  | .comment t, _, _, b, h => h
  | .directive k t, _, _, b, h => h
  | .element name attrs cs, hcode, hclean, b, h => by
    have hbelow : CodeSpares '<' (tagsAll cs) := hcode.mono (List.subset_cons_self _ _)
    have hlabel := fun hclean =>
      opens_addNodes (name :: scope) false cs hbelow hclean [] (List.forall_mem_nil _)
    cases hrole : (Node.element name attrs cs).role with
    | ignored =>
      simp only [addNode, hrole]
      exact h
    | link =>
      simp only [references, hrole] at hclean
      simp only [addNode, hrole]
      split
      · rename_i hempty
        rw [if_pos hempty] at hclean
        exact ofMarkup_opens.addAnchor h (hlabel hclean)
      rename_i hempty
      rw [if_neg hempty] at hclean
      split
      · rename_i hsafe
        rw [if_pos hsafe, Clean, List.forall_mem_cons] at hclean
        have hquiet := (accounts_addNodes foreign_less (name :: scope) false cs hbelow []
          (quiet_nil _)).quiet
        have hescape : ∀ t, '<' ∉ t → '<' ∉ Markdown.escapeLabel t := fun t ht => by
          rw [← List.count_eq_zero] at ht ⊢
          rw [foreign_less.count_escapeLabel, ht]
        have hhref := hclean.1
        rw [takenTexts, if_pos hrole, List.forall_mem_singleton] at hhref
        refine ofMarkup_opens.addSurrounded h _ ((List.forall_mem_singleton ..).mpr ?_)
        exact anglesOpen_linkMarkup
          (anglesOpen_collapseWith hquiet (hlabel hclean.2) Markdown.escapeLabel hescape) hhref
      · exact ofMarkup_opens.prune h
    | lineBreak =>
      simp only [addNode, hrole]
      exact OfMarkup.concat h trivial
    | image =>
      simp only [addNode, hrole]
      exact OfMarkup.addMarkup h fun _ => anglesOpen_imageMarkup hrole hclean
    | strong =>
      simp only [references, hrole] at hclean
      simp only [addNode, hrole]
      exact ofMarkup_opens.addWrapped h (hlabel hclean) (anglesOpen_of_no_angle (by decide))
    | emphasis =>
      simp only [references, hrole] at hclean
      simp only [addNode, hrole]
      exact ofMarkup_opens.addWrapped h (hlabel hclean) (anglesOpen_of_no_angle (by decide))
    | code =>
      have hspan := hcode (by rw [tags, ← tag_of_code hrole]; exact List.mem_cons_self ..)
      simp only [addNode, hrole]
      exact OfMarkup.addMarkup h fun _ => anglesOpen_of_no_angle (hspan _)
    | _ =>
      simp only [references, hrole] at hclean
      simp only [addNode, hrole]
      exact opens_addNodes (name :: scope) false cs hbelow hclean b h

theorem opens_addNodes (scope : Scope) (dropped : Bool) : (ns : List Node) →
    CodeSpares '<' (tagsAll ns) → Clean (referencesAmong ns) → (b : Buffer) → (∀ g ∈ b, Opens g) →
      ∀ g ∈ addNodes scope dropped ns b, Opens g
  | [], _, _, b, h => by
    rw [addNodes]
    exact h
  | n :: ns, hcode, hclean, b, h => by
    have hns := hcode.mono (List.subset_append_right n.tags (tagsAll ns))
    have hclean' := hclean.of_subset (List.subset_append_right (references n) (referencesAmong ns))
    rw [addNodes]
    split
    · exact opens_addNodes scope false ns hns hclean' b h
    · refine opens_addNodes scope _ ns hns hclean' _ ?_
      exact opens_addNode scope n (hcode.mono (List.subset_append_left n.tags (tagsAll ns)))
        (hclean.of_subset (List.subset_append_left ..)) b h

end

/-- If nothing that is taken over has an opening angle bracket, all those of a run open
destinations. -/
theorem anglesOpen_collapse (scope : Scope) {ns : List Node} (hcode : CodeSpares '<' (tagsAll ns))
    (hclean : Clean (referencesAmong ns)) : AnglesOpen (collapse scope ns) := by
  refine anglesOpen_collapseWith ?_ ?_ id fun _ ht => ht
  · exact (accounts_addNodes foreign_less scope false ns hcode [] (quiet_nil _)).quiet
  · exact opens_addNodes scope false ns hcode hclean [] (List.forall_mem_nil _)

end Inline

end Hypermark
