import Hypermark.Proofs.DroppedLink

/-!
# Nodes that say nothing

Comments and all directives but character data add nothing to a document.  Taking them away leaves
the attributes, the role and the texts of every other node as they are; a line stays the same too,
unless one of them keeps a separator apart from the dropped link that would have taken it along.

* `Pares`: some mute nodes are taken away; `paredAll` takes all of them.
* `addNodes_pared`: what is left of a line adds what the whole line does.
* `render_pared`: a line without its mute nodes.
-/

namespace Hypermark

namespace Node

/-- A comment, or a directive that is no character data. -/
def isMute : Node → Bool
  | comment _ => true
  | directive kind _ => kind != .cdata
  | _ => false

mutual

/-- The node without the mute nodes below it. -/
def pared : Node → Node
  | element name attrs cs => element name attrs (paredAll cs)
  | n => n

/-- The siblings that are not mute, without the mute nodes below them. -/
def paredAll : List Node → List Node
  | [] => []
  | n :: ns => if n.isMute then paredAll ns else pared n :: paredAll ns

end

/-- The second siblings are the first ones without some mute nodes, at any depth. -/
inductive Pares : List Node → List Node → Prop
  | nil : Pares [] []
  | drop {n : Node} {ns ns' : List Node} : n.isMute = true → Pares ns ns' → Pares (n :: ns) ns'
  | keep (n : Node) {ns ns' : List Node} : Pares ns ns' → Pares (n :: ns) (n :: ns')
  | inside (name : Text) (attrs : Attributes) {cs cs' ns ns' : List Node} :
      Pares cs cs' → Pares ns ns' →
        Pares (.element name attrs cs :: ns) (.element name attrs cs' :: ns')

theorem paredAll_cons_of_mute {n : Node} (h : n.isMute = true) (ns : List Node) :
    paredAll (n :: ns) = paredAll ns := by rw [paredAll, if_pos h]

theorem paredAll_cons {n : Node} (h : n.isMute = false) (ns : List Node) :
    paredAll (n :: ns) = n.pared :: paredAll ns := by rw [paredAll, if_neg (Bool.eq_false_iff.mp h)]

theorem paredAll_append (xs ys : List Node) :
    paredAll (xs ++ ys) = paredAll xs ++ paredAll ys := by
  induction xs with
  | nil => rfl
  | cons x xs ih =>
    rw [List.cons_append, paredAll, paredAll, ih]
    split <;> rfl

/-- Nothing is left but what every other way of taking mute nodes away leaves too. -/
theorem Pares.paredAll_eq {ns ns' : List Node} (h : Pares ns ns') : paredAll ns' = paredAll ns := by
  induction h with
  | nil => rfl
  | drop hn _ ih => rw [paredAll_cons_of_mute hn, ih]
  | keep n _ ih => rw [paredAll, paredAll, ih]
  | inside name attrs _ _ ihcs ih =>
    rw [paredAll_cons rfl, paredAll_cons rfl, ih, pared, pared, ihcs]

/-! ## Single nodes -/

section Views

variable (n : Node)

theorem tag_pared : n.pared.tag = n.tag := by cases n <;> rfl

theorem role_pared : n.pared.role = n.role := by cases n <;> rfl

theorem isBlock_pared : n.pared.isBlock = n.isBlock := by rw [isBlock, role_pared, isBlock]

theorem isElement_pared : n.pared.isElement = n.isElement := by cases n <;> rfl

theorem isCell_pared : Render.isCell n.pared = Render.isCell n := by
  rw [Render.isCell, tag_pared, Render.isCell]

theorem isShown_pared : Render.isShown n.pared = Render.isShown n := by cases n <;> rfl

theorem children_pared : n.pared.children = paredAll n.children := by cases n <;> rfl

theorem attribute?_pared (name : Text) : n.pared.attribute? name = n.attribute? name := by
  cases n <;> rfl

theorem hasClass_pared (token : Text) : n.pared.hasClass token = n.hasClass token := by
  cases n <;> rfl

theorem languageOf?_pared : Figure.languageOf? n.pared = Figure.languageOf? n := by cases n <;> rfl

theorem ofNode?_pared : Language.ofNode? n.pared = Language.ofNode? n := by cases n <;> rfl

theorem isSeparator_pared : Inline.isSeparator n.pared = Inline.isSeparator n := by cases n <;> rfl

variable {n}

/-- A mute node is neither block nor text nor element. -/
theorem not_block_of_mute (h : n.isMute = true) : n.isBlock = false ∧
    Render.isShown n = false ∧ n.isElement = false := by
  cases n with
  | element name attrs cs => cases h
  | text t => cases h
  | comment t => exact ⟨rfl, rfl, rfl⟩
  | directive k t => exact ⟨rfl, rfl, rfl⟩

theorem not_cell_of_mute (h : n.isMute = true) : Render.isCell n = false := by
  cases n with
  | element name attrs cs => cases h
  | text t => cases h
  | comment t => rfl
  | directive k t => rfl

end Views

/-- A question about single siblings to which mute nodes never answer yes. -/
theorem any_pared {q : Node → Bool} (hmute : ∀ n, n.isMute = true → q n = false)
    (hq : ∀ n, q n.pared = q n) (ns : List Node) : (paredAll ns).any q = ns.any q := by
  induction ns with
  | nil => rfl
  | cons n ns ih =>
    cases hn : n.isMute with
    | true => rw [paredAll_cons_of_mute hn, List.any_cons, hmute n hn, ih, Bool.false_or]
    | false => rw [paredAll_cons hn, List.any_cons, List.any_cons, hq, ih]

theorem any_isBlock_pared (ns : List Node) : (paredAll ns).any isBlock = ns.any isBlock :=
  any_pared (fun _ hn => (not_block_of_mute hn).1) isBlock_pared ns

theorem any_isCell_pared (ns : List Node) :
    (paredAll ns).any Render.isCell = ns.any Render.isCell :=
  any_pared (fun _ hn => not_cell_of_mute hn) isCell_pared ns

theorem isHeaderRow_pared (scope : Scope) (ns : List Node) :
    Render.isHeaderRow scope (paredAll ns) = Render.isHeaderRow scope ns := by
  have hcells : ∀ ns : List Node, ((ns.filter Render.isCell).all fun n => n.tag == "th".toList) =
      !ns.any fun n => Render.isCell n && n.tag != "th".toList := by
    intro ns
    rw [List.all_eq_not_any_not, List.any_filter]
    rfl
  rw [Render.isHeaderRow, Render.isHeaderRow, hcells, hcells, any_pared]
  · intro n hn
    rw [not_cell_of_mute hn, Bool.false_and]
  · intro n
    rw [isCell_pared, tag_pared]

/-! ## Text -/

theorem ownedText_of_mute {n : Node} (h : n.isMute = true) (wanted owner : Option Text) :
    ownedText wanted owner n = [] := by
  cases n with
  | element name attrs cs => cases h
  | text t => cases h
  | comment t => rfl
  | directive k t =>
    cases k with
    | cdata => cases h
    | doctype => rfl
    | instruction => rfl
    | declaration => rfl

mutual

theorem ownedText_pared (wanted owner : Option Text) :
    (n : Node) → ownedText wanted owner n.pared = ownedText wanted owner n
  | element name _ cs => ownedTexts_pared wanted (ownerInside name owner) cs
  | text _ => rfl
  | comment _ => rfl
  | directive _ _ => rfl

theorem ownedTexts_pared (wanted owner : Option Text) :
    (ns : List Node) → ownedTexts wanted owner (paredAll ns) = ownedTexts wanted owner ns
  | [] => rfl
  | n :: ns => by
    rw [ownedTexts]
    cases hn : n.isMute with
    | true => rw [paredAll_cons_of_mute hn, ownedText_of_mute hn, ownedTexts_pared wanted owner ns,
        List.nil_append]
    | false => rw [paredAll_cons hn, ownedTexts, ownedText_pared wanted owner n,
        ownedTexts_pared wanted owner ns]

end

theorem textIn_pared (scope : Scope) (n : Node) : n.pared.textIn scope = n.textIn scope := by
  cases n with
  | element name attrs cs => exact ownedTexts_pared _ _ cs
  | text t => rfl
  | comment t => rfl
  | directive k t => rfl

end Node

/-! ## Lines -/

namespace Inline

open Node

/-- Mute nodes alone, and at least one, stand between a dropped link and a bare separator;
`dropped` says that the siblings follow a dropped link, and `parted` that a mute node came since. -/
def partsSeparator (dropped parted : Bool) : List Node → Bool
  | [] => false
  | n :: ns =>
    if n.isMute then partsSeparator dropped dropped ns
    else (parted && isSeparator n) || partsSeparator (isDropped n) false ns

theorem partsSeparator_of_not_mute (dropped : Bool) {ns : List Node}
    (h : ∀ n ∈ ns, n.isMute = false) : partsSeparator dropped false ns = false := by
  induction ns generalizing dropped with
  | nil => rfl
  | cons n ns ih =>
    rw [List.forall_mem_cons] at h
    rw [partsSeparator, if_neg (Bool.eq_false_iff.mp h.1), Bool.false_and, Bool.false_or]
    exact ih _ h.2

/-- A block among siblings takes no part in what stands on either side of it. -/
theorem partsSeparator_append_block (dropped parted : Bool) (xs : List Node) {n : Node}
    (h : n.isBlock = true) (ns : List Node) : partsSeparator dropped parted (xs ++ n :: ns) =
      (partsSeparator dropped parted xs || partsSeparator false false ns) := by
  induction xs generalizing dropped parted with
  | nil =>
    cases n with
    | element name attrs cs =>
      have hdropped : isDropped (element name attrs cs) = false := by
        refine Bool.eq_false_iff.mpr fun hd => ?_
        rw [isDropped, Bool.and_eq_true, Bool.and_eq_true, beq_iff_eq] at hd
        rw [isBlock, hd.1.1] at h
        cases h
      show (parted && false || partsSeparator (isDropped (element name attrs cs)) false ns) = _
      rw [hdropped, Bool.and_false, partsSeparator]
    | text t => cases h
    | comment t => cases h
    | directive k t => cases h
  | cons x xs ih =>
    rw [List.cons_append, partsSeparator, partsSeparator, ih, ih]
    split
    · rfl
    · rw [Bool.or_assoc]

/-- With fewer mute nodes no more separators are kept apart. -/
theorem partsSeparator_of_pares {ns ns' : List Node} (h : Pares ns ns')
    {dropped parted parted' : Bool} (hle : parted' = true → parted = true ∧ dropped = true)
    (hns : partsSeparator dropped parted ns = false) :
    partsSeparator dropped parted' ns' = false := by
  induction h generalizing dropped parted parted' with
  | nil => rfl
  | drop hn _ ih =>
    rw [partsSeparator, if_pos hn] at hns
    exact ih (fun hp => ⟨(hle hp).2, (hle hp).2⟩) hns
  | @keep n ns ns' _ ih =>
    rw [partsSeparator] at hns ⊢
    split at hns
    · rw [if_pos (by assumption)]
      exact ih (fun hp => ⟨hp, hp⟩) hns
    · rw [if_neg (by assumption)]
      rw [Bool.or_eq_false_iff] at hns ⊢
      refine ⟨Bool.eq_false_iff.mpr fun hs => ?_, ih nofun hns.2⟩
      rw [Bool.and_eq_true] at hs
      rw [(hle hs.1).1, hs.2] at hns
      cases hns.1
  | inside name attrs _ _ _ ih =>
    rw [partsSeparator, if_neg nofun, Bool.or_eq_false_iff] at hns
    exact Bool.or_eq_false_iff.mpr ⟨Bool.and_false _, ih nofun hns.2⟩

end Inline

/-- In no run inside the element do mute nodes keep a separator apart from a dropped link. -/
def Node.Unparted (n : Node) : Prop := Inline.partsSeparator false false n.children = false

instance : DecidablePred Node.Unparted := fun n =>
  inferInstanceAs (Decidable (Inline.partsSeparator false false n.children = false))

namespace Inline

open Node

theorem addNode_snd (scope : Scope) (n : Node) (b : Buffer) :
    (addNode scope n b).2 = isDropped n := by
  cases hd : isDropped n with
  | true => rw [addNode_of_isDropped hd]
  | false =>
    cases n with
    | element name attrs cs =>
      rw [isDropped] at hd
      rw [addNode]
      cases hrole : (element name attrs cs).role with
      | link =>
        rw [hrole] at hd
        cases hhref : (hrefOf (element name attrs cs)).isEmpty with
        | true => rfl
        | false =>
          rw [hhref] at hd
          cases hsafe : Link.isSafe (hrefOf (element name attrs cs)) with
          | true => simp
          | false => rw [hsafe] at hd; cases hd
      | _ => rfl
    | text t => rw [addNode]
    | comment t => rw [addNode]
    | directive k t => rw [addNode]

theorem addNode_of_mute {n : Node} (h : n.isMute = true) (scope : Scope) (b : Buffer) :
    addNode scope n b = (b, false) := by
  cases n with
  | element name attrs cs => cases h
  | text t => cases h
  | comment t => rw [addNode]
  | directive k t => rw [addNode]

/-- Without the mute nodes below it a node adds the same. -/
def AddsPared (n : Node) : Prop := ∀ scope b, addNode scope n.pared b = addNode scope n b

theorem addNodes_pared {ns : List Node} (h : ∀ n ∈ ns, AddsPared n) {dropped parted : Bool}
    (hparted : partsSeparator dropped parted ns = false) (scope : Scope) (b : Buffer) :
    addNodes scope dropped (paredAll ns) b = addNodes scope (dropped && !parted) ns b := by
  -- a mute node makes the line forget that a link was dropped; `parted` remembers it instead
  induction ns generalizing dropped parted b with
  | nil => rw [paredAll, addNodes_nil, addNodes_nil]
  | cons n ns ih =>
    rw [List.forall_mem_cons] at h
    rw [partsSeparator] at hparted
    cases hn : n.isMute with
    | true =>
      have hsep : isSeparator n = false := by
        cases n with
        | text t => cases hn
        | _ => rfl
      rw [if_pos hn] at hparted
      rw [paredAll_cons_of_mute hn, addNodes, hsep, Bool.and_false, ih h.2 hparted,
        Bool.and_not_self, addNode_of_mute hn]
      rfl
    | false =>
      rw [if_neg (Bool.eq_false_iff.mp hn), Bool.or_eq_false_iff] at hparted
      have hflag : (dropped && isSeparator n) = (dropped && !parted && isSeparator n) := by
        cases hsep : isSeparator n with
        | false => rw [Bool.and_false, Bool.and_false]
        | true =>
          rw [hsep, Bool.and_true] at hparted
          rw [hparted.1, Bool.not_false, Bool.and_true, Bool.and_true]
      rw [paredAll_cons hn, addNodes, addNodes, isSeparator_pared, hflag]
      split
      · rename_i hsep
        have hkept : isDropped n = false := Bool.eq_false_iff.mpr fun hd => by
          rw [isSeparator_of_isDropped hd, Bool.and_false] at hsep
          cases hsep
        rw [hkept] at hparted
        exact ih h.2 hparted.2 b
      · dsimp only
        rw [h.1, addNode_snd, ih h.2 hparted.2, Bool.not_false, Bool.and_true]

theorem addsPared {n : Node} (h : n.Throughout Unparted) : AddsPared n := by
  induction h with
  | @intro n here _ ih =>
    intro scope b
    cases n with
    | element name attrs cs =>
      have hbelow : ∀ b, addNodes (name :: scope) false (paredAll cs) b =
          addNodes (name :: scope) false cs b := fun b => addNodes_pared ih here (name :: scope) b
      have hhref : hrefOf (element name attrs (paredAll cs)) = hrefOf (element name attrs cs) := rfl
      have himage : imageMarkup (element name attrs (paredAll cs)) =
          imageMarkup (element name attrs cs) := rfl
      have htext := textIn_pared scope (element name attrs cs)
      have hrole := role_pared (element name attrs cs)
      rw [pared] at htext hrole ⊢
      rw [addNode, addNode]
      simp only [hrole, hbelow, hhref, himage, htext]
    | text t => rfl
    | comment t => rfl
    | directive k t => rfl

/-! ## Notices -/

theorem notices_of_mute {n : Node} (h : n.isMute = true) : notices n = [] := by
  cases n with
  | element name attrs cs => cases h
  | text t => cases h
  | comment t => rw [notices]
  | directive k t => rw [notices]

theorem noticesAll_pared {ns : List Node} (h : ∀ n ∈ ns, notices n.pared = notices n) :
    noticesAll (paredAll ns) = noticesAll ns := by
  induction ns with
  | nil => rfl
  | cons n ns ih =>
    rw [List.forall_mem_cons] at h
    rw [noticesAll]
    cases hn : n.isMute with
    | true => rw [paredAll_cons_of_mute hn, notices_of_mute hn, List.nil_append, ih h.2]
    | false => rw [paredAll_cons hn, noticesAll, h.1, ih h.2]

theorem notices_pared (n : Node) : notices n.pared = notices n := by
  refine (Node.throughout (B := fun n => notices n.pared = notices n) (fun n ih => ?_) n).here
  cases n with
  | element name attrs cs =>
    have hbelow : noticesAll (paredAll cs) = noticesAll cs :=
      noticesAll_pared fun c hc => (ih c hc).here
    have hhref : hrefOf (element name attrs (paredAll cs)) = hrefOf (element name attrs cs) := rfl
    have hsource : sourceOf (element name attrs (paredAll cs)) =
        sourceOf (element name attrs cs) := rfl
    have hrole := role_pared (element name attrs cs)
    rw [pared] at hrole ⊢
    rw [notices, notices]
    simp only [hrole, hbelow, hhref, hsource]
  | text t => rfl
  | comment t => rfl
  | directive k t => rfl

/-- A line without its mute nodes comes out the same. -/
theorem render_pared {ns : List Node} (h : ∀ n ∈ ns, n.Throughout Unparted)
    (hparted : partsSeparator false false ns = false) (scope : Scope) :
    render scope (paredAll ns) = render scope ns := by
  have hbuffer : buffer scope (paredAll ns) = buffer scope ns :=
    addNodes_pared (fun n hn => addsPared (h n hn)) hparted scope []
  rw [render, render, noticesAll_pared fun n _ => notices_pared n, collapse, collapse, hbuffer]

end Inline

end Hypermark
