import Mathlib.Algebra.GroupWithZero.Nat
import Hypermark.Proofs.InlineMarkup
import Hypermark.Proofs.RawTable

/-!
# Characters of a run, counted

The markup of a run takes over attributes: the destination of a link, and the source, the label and
the title of an image.  A character that neither the marks of Markdown nor literal text bring in has
to come from there, or from a `br` if it is the line feed.  What is kept while nodes are added is how
often the character stands in the markup of the buffer, up to the breaks: the label of a link turns
its breaks into a part of the markup.

* `Buffer.sum_settle`: collapsing keeps every measure of the pieces, and adds breaks at most.
* `accounts_addNode`: what a node adds to a buffer.
* `count_collapse`: how often the character stands in a run.
-/

namespace Hypermark

/-! ## Links and images -/

namespace Inline

/-- Where a link or an image points to. -/
def destinationOf (n : Node) : Text := if n.role = .link then hrefOf n else sourceOf n

/-- The attributes that a link or an image takes over, the label of an image on one line. -/
def takenTexts (n : Node) : List Text :=
  if n.role = .link then [hrefOf n]
  else [Text.trim (Text.collapseSpaces (n.attributeOrEmpty "alt".toList)), sourceOf n,
    n.attributeOrEmpty "title".toList]

/-- The destination is written in angle brackets. -/
def isBracketed (n : Node) : Bool := (destinationOf n).any Markdown.endsDestination

mutual

/-- The links and images that are written when a node is added, a link before those in its label. -/
def references : Node → List Node
  | .element name attrs cs =>
    let n := Node.element name attrs cs
    match n.role with
    | .ignored | .lineBreak | .code => []
    | .link =>
      if (hrefOf n).isEmpty then referencesAmong cs
      else if Link.isSafe (hrefOf n) then n :: referencesAmong cs
      else []
    | .image => if (sourceOf n).isEmpty || !Link.isSafe (sourceOf n) then [] else [n]
    | _ => referencesAmong cs
  | _ => []

def referencesAmong : List Node → List Node
  | [] => []
  | n :: ns => references n ++ referencesAmong ns

end

/-- How often a character stands in what a link or an image takes over, or before its destination. -/
def taken (c : Char) (n : Node) : Nat :=
  ((takenTexts n).map (List.count c)).sum + if isBracketed n then ['<'].count c else 0

/-- The same for several links and images. -/
def takenAll (c : Char) (ns : List Node) : Nat := (ns.map (taken c)).sum

theorem taken_link (c : Char) {n : Node} (hn : n.role = .link) : taken c n =
    (hrefOf n).count c +
      if (hrefOf n).any Markdown.endsDestination then ['<'].count c else 0 := by
  rw [taken, takenTexts, isBracketed, destinationOf, if_pos hn, if_pos hn, List.map_singleton,
    List.sum_singleton]

theorem taken_image (c : Char) {n : Node} (hn : n.role ≠ .link) : taken c n =
    (Text.trim (Text.collapseSpaces (n.attributeOrEmpty "alt".toList))).count c +
      ((sourceOf n).count c + (n.attributeOrEmpty "title".toList).count c) +
      if (sourceOf n).any Markdown.endsDestination then ['<'].count c else 0 := by
  rw [taken, takenTexts, isBracketed, destinationOf, if_neg hn, if_neg hn]
  rfl

theorem takenAll_cons (c : Char) (n : Node) (ns : List Node) :
    takenAll c (n :: ns) = taken c n + takenAll c ns := List.sum_cons

theorem takenAll_append (c : Char) (xs ys : List Node) :
    takenAll c (xs ++ ys) = takenAll c xs + takenAll c ys := by
  rw [takenAll, List.map_append, List.sum_append]
  rfl

theorem referencesAmong_append (xs ys : List Node) :
    referencesAmong (xs ++ ys) = referencesAmong xs ++ referencesAmong ys := by
  induction xs with
  | nil => rfl
  | cons x xs ih => rw [List.cons_append, referencesAmong, referencesAmong, ih, List.append_assoc]

/-! ## Foreign characters -/

/-- The marks of the markup in a line, the space and the closing bracket of a destination. -/
def lineMarks : Text := "[]()!*\"\\> ".toList

/-- A character that is no mark, and stands in literal text as white space at most. -/
structure Foreign (c : Char) : Prop where
  mark : c ∉ lineMarks
  text : ∀ t, c ∈ Markdown.escapeAngles t → Text.isSpace c = true

theorem foreign_of_isSpace {c : Char} (hc : Text.isSpace c = true) (hspace : c ≠ ' ') :
    Foreign c where
  mark hmem := by
    have hmarks : lineMarks.filter Text.isSpace = [' '] := by decide
    exact hspace (List.mem_singleton.mp (hmarks ▸ List.mem_filter.mpr ⟨hmem, hc⟩))
  text _ _ := hc

/-- Text has no angle brackets. -/
theorem not_mem_escapeAngles {c : Char} (hc : c = '<' ∨ c = '>') (t : Text) :
    c ∉ Markdown.escapeAngles t := by
  intro hmem
  obtain ⟨d, _, hd⟩ := List.mem_flatMap.mp hmem
  have hentities : c ∉ "&lt;".toList ∧ c ∉ "&gt;".toList := by
    rcases hc with rfl | rfl
    · decide
    · decide
  split at hd
  · exact hentities.1 hd
  split at hd
  · exact hentities.2 hd
  · rename_i hless hgreater
    rw [List.mem_singleton] at hd
    rcases hc with rfl | rfl
    · exact hless hd.symm
    · exact hgreater hd.symm

theorem foreign_less : Foreign '<' where
  mark := by decide
  text t hmem := absurd hmem (not_mem_escapeAngles (.inl rfl) t)

namespace Foreign

variable {c : Char} (hc : Foreign c)
include hc

theorem count_marks {t : Text} (ht : t ⊆ lineMarks) : t.count c = 0 :=
  List.count_eq_zero.mpr fun hmem => hc.mark (ht hmem)

theorem ne_space : c ≠ ' ' := fun h => hc.mark (h ▸ by decide)

/-- Putting backslashes before some characters does not count. -/
theorem count_flatMap_escaped {q : Char → Bool} (t : Text) :
    (t.flatMap fun d => if q d then ['\\', d] else [d]).count c = t.count c := by
  have hslash : ['\\'].count c = 0 := hc.count_marks (by decide)
  induction t with
  | nil => rfl
  | cons d t ih =>
    have hone : (if q d then ['\\', d] else [d]).count c = [d].count c := by
      split
      · rw [← List.singleton_append, List.count_append, hslash, Nat.zero_add]
      · rfl
    rw [List.flatMap_cons, List.count_append, ih, hone, ← List.count_append]
    rfl

theorem count_escapeLabel (t : Text) : (Markdown.escapeLabel t).count c = t.count c :=
  hc.count_flatMap_escaped t

theorem count_escapeTitle (t : Text) : (Markdown.escapeTitle t).count c = t.count c := by
  have h := hc.count_flatMap_escaped (q := fun d => d = '\\' || d = '"') t
  simpa only [Markdown.escapeTitle, Bool.or_eq_true, decide_eq_true_eq] using h

theorem count_formatDestination (url : Text) : (Markdown.formatDestination url).count c =
    url.count c + if url.any Markdown.endsDestination then ['<'].count c else 0 := by
  rw [Markdown.formatDestination]
  split
  · have hclose : ['>'].count c = 0 := hc.count_marks (by decide)
    rw [List.count_append, hclose, ← List.singleton_append, List.count_append]
    omega
  · rfl

theorem count_titlePart (title : Text) : (titlePart title).count c = title.count c := by
  rw [titlePart]
  split
  · rename_i hempty
    rw [List.isEmpty_iff.mp hempty]
  · have hopen : " \"".toList.count c = 0 := hc.count_marks (by decide)
    have hclose : ['"'].count c = 0 := hc.count_marks (by decide)
    rw [List.count_append, List.count_append, hopen, hclose, hc.count_escapeTitle]
    omega

theorem count_linkMarkup {n : Node} (hn : n.role = .link) (label : Text) :
    (linkMarkup label (hrefOf n)).count c = label.count c + taken c n := by
  have hopen : ['['].count c = 0 := hc.count_marks (by decide)
  have hmiddle : "](".toList.count c = 0 := hc.count_marks (by decide)
  have hclose : [')'].count c = 0 := hc.count_marks (by decide)
  rw [linkMarkup, List.cons_append, List.cons_append, ← List.singleton_append]
  simp only [List.count_append, hopen, hmiddle, hclose, hc.count_formatDestination, taken_link c hn]
  omega

theorem count_imageMarkup {n : Node} (hn : n.role = .image) :
    (imageMarkup n).count c = takenAll c (references n) := by
  cases n with
  | element name attrs cs =>
    simp only [references, hn, imageMarkup]
    split
    · rfl
    · have hopen : "![".toList.count c = 0 := hc.count_marks (by decide)
      have hmiddle : "](".toList.count c = 0 := hc.count_marks (by decide)
      have hclose : [')'].count c = 0 := hc.count_marks (by decide)
      simp only [List.count_append, hopen, hmiddle, hclose, hc.count_formatDestination,
        hc.count_titlePart, altLabel, hc.count_escapeLabel]
      have hlink : (Node.element name attrs cs).role ≠ .link := by
        rw [hn]
        decide
      rw [takenAll, List.map_singleton, List.sum_singleton, taken_image c hlink]
      omega
  | text t => cases hn
  | comment t => cases hn
  | directive k t => cases hn

end Foreign

end Inline

/-! ## Buffers -/

/-- How often a character stands in finished Markdown. -/
def Fragment.markupCount (c : Char) : Fragment → Nat
  | .markup m => m.count c
  | _ => 0

/-- The number of line breaks that a hard break stands for. -/
def Fragment.breakCount : Fragment → Nat
  | .hardBreak t => t.length
  | _ => 0

/-- How often a character stands in a number of line breaks. -/
def feedCount (c : Char) (n : Nat) : Nat := (List.replicate n '\n').count c

theorem feedCount_add (c : Char) (m n : Nat) : feedCount c (m + n) = feedCount c m + feedCount c n := by
  rw [feedCount, List.replicate_add, List.count_append]
  rfl

theorem feedCount_le {c : Char} {m n : Nat} (h : m ≤ n) : feedCount c m ≤ feedCount c n := by
  obtain ⟨k, rfl⟩ := Nat.exists_eq_add_of_le h
  rw [feedCount_add]
  omega

namespace Buffer

open Inline

def markupCount (c : Char) (b : Buffer) : Nat := (b.map (Fragment.markupCount c)).sum

def breakCount (b : Buffer) : Nat := (b.map Fragment.breakCount).sum

/-- The character stands in literal text as white space at most. -/
def Quiet (c : Char) (b : Buffer) : Prop := ∀ t, .text t ∈ b → c ∈ t → Text.isSpace c = true

theorem markupCount_append (c : Char) (a b : Buffer) :
    markupCount c (a ++ b) = markupCount c a + markupCount c b := by
  rw [markupCount, List.map_append, List.sum_append]
  rfl

theorem breakCount_append (a b : Buffer) : breakCount (a ++ b) = breakCount a + breakCount b := by
  rw [breakCount, List.map_append, List.sum_append]
  rfl

theorem quiet_nil (c : Char) : Quiet c [] := fun _ ht => absurd ht List.not_mem_nil

theorem Quiet.append {c : Char} {a b : Buffer} (ha : Quiet c a) (hb : Quiet c b) :
    Quiet c (a ++ b) := fun t ht => (List.mem_append.mp ht).elim (ha t) (hb t)

/-! ### Collapsing -/

/-- A measure of pieces; gaps count for nothing. -/
def ofPiece (μ : Fragment → Nat) : Atom → Nat
  | .piece f => μ f
  | _ => 0

/-- The number of hard breaks among some atoms. -/
def breaksIn : List Atom → Nat
  | [] => 0
  | .breaks n :: rest => n + breaksIn rest
  | _ :: rest => breaksIn rest

theorem zero_of_add {ν : Nat → Nat} (hadd : ∀ m n, ν (m + n) = ν m + ν n) : ν 0 = 0 := by
  have hdouble := hadd 0 0
  rw [Nat.add_zero] at hdouble
  omega

section Settle

variable {μ : Fragment → Nat} {ν : Nat → Nat} (hspace : μ (.text [' ']) = 0)
  (hbreak : ∀ n, μ (.hardBreak (List.replicate n '\n')) ≤ ν n)
  (hadd : ∀ m n, ν (m + n) = ν m + ν n)
include hspace hbreak

theorem sum_gap_le (gap : Gap) : (gap.fragments.map μ).sum ≤ ν gap.breaks := by
  rw [Gap.fragments]
  split
  · rw [List.map_singleton, List.sum_singleton]
    exact hbreak _
  split
  · rw [List.map_singleton, List.sum_singleton, hspace]
    exact Nat.zero_le _
  · exact Nat.zero_le _

include hadd

theorem sum_settleAfter (gap : Gap) (as : List Atom) :
    (as.map (ofPiece μ)).sum ≤ ((settleAfter gap as).map μ).sum ∧
      ((settleAfter gap as).map μ).sum ≤
        (as.map (ofPiece μ)).sum + (ν gap.breaks + ν (breaksIn as)) := by
  induction as generalizing gap with
  | nil => exact ⟨Nat.le_refl 0, Nat.zero_le _⟩
  | cons a as ih =>
    cases a with
    | piece f =>
      obtain ⟨hleast, hmost⟩ := ih Gap.none
      have hgap := sum_gap_le hspace hbreak gap
      have hzero : ν (Gap.none).breaks = 0 := zero_of_add hadd
      rw [hzero] at hmost
      simp only [settleAfter, List.map_append, List.map_cons, List.sum_append, List.sum_cons, ofPiece,
        breaksIn]
      omega
    | space =>
      obtain ⟨hleast, hmost⟩ := ih { gap with space := true }
      dsimp only at hmost
      simp only [settleAfter, List.map_cons, List.sum_cons, ofPiece, breaksIn]
      omega
    | breaks n =>
      obtain ⟨hleast, hmost⟩ := ih { gap with breaks := gap.breaks + n }
      rw [hadd] at hmost
      simp only [settleAfter, List.map_cons, List.sum_cons, ofPiece, breaksIn, hadd]
      omega

/-- Settling keeps every measure of the pieces, and adds at most what the breaks count. -/
theorem sum_settle (as : List Atom) :
    (as.map (ofPiece μ)).sum ≤ ((settle as).map μ).sum ∧
      ((settle as).map μ).sum ≤ (as.map (ofPiece μ)).sum + ν (breaksIn as) := by
  induction as with
  | nil => exact ⟨Nat.le_refl 0, Nat.zero_le _⟩
  | cons a as ih =>
    cases a with
    | piece f =>
      -- No gap comes before the first piece, so the first one is that between it and the next.
      have hfirst := sum_settleAfter hspace hbreak hadd Gap.none (.piece f :: as)
      have hzero : ν (Gap.none).breaks = 0 := zero_of_add hadd
      rw [hzero, Nat.zero_add] at hfirst
      exact hfirst
    | space =>
      simp only [settle, List.map_cons, List.sum_cons, ofPiece, breaksIn]
      omega
    | breaks n =>
      simp only [settle, List.map_cons, List.sum_cons, ofPiece, breaksIn, hadd]
      omega

end Settle

section Atoms

variable (escape : Text → Text)

theorem breaksIn_append (as bs : List Atom) : breaksIn (as ++ bs) = breaksIn as + breaksIn bs := by
  induction as with
  | nil => rw [List.nil_append, breaksIn, Nat.zero_add]
  | cons a as ih => cases a <;> simp only [List.cons_append, breaksIn, ih, Nat.add_assoc]

theorem breaksIn_atoms (b : Buffer) : breaksIn (atoms escape b) = breakCount b := by
  induction b with
  | nil => rfl
  | cons f b ih =>
    have hone : breaksIn (atomsOf escape f) = f.breakCount := by
      cases f with
      | text t =>
        rw [atomsOf]
        generalize Text.runs t = rs
        induction rs with
        | nil => rfl
        | cons r rs ih =>
          rw [List.map_cons]
          split
          · exact ih
          · exact ih
      | markup m => rfl
      | hardBreak t => rfl
    rw [atoms, List.flatMap_cons, breaksIn_append, hone]
    exact congrArg (f.breakCount + ·) ih

/-- A measure that literal text does not count for is a measure of the markup. -/
theorem sum_atoms {μ : Fragment → Nat} {g : Fragment → Nat} (b : Buffer)
    (htext : ∀ t, .text t ∈ b → g (.text t) = 0 ∧
      ∀ run ∈ Text.runs t, run.all Text.isSpace = false → μ (.text (escape run)) = 0)
    (hmarkup : ∀ m, μ (.markup m) = g (.markup m)) (hbreak : ∀ t, g (.hardBreak t) = 0) :
    ((atoms escape b).map (ofPiece μ)).sum = (b.map g).sum := by
  induction b with
  | nil => rfl
  | cons f b ih =>
    have hone : ((atomsOf escape f).map (ofPiece μ)).sum = g f := by
      cases f with
      | text t =>
        obtain ⟨hzero, hruns⟩ := htext t (List.mem_cons_self ..)
        rw [atomsOf, hzero, List.sum_eq_zero_iff_forall_eq_nat]
        intro k hk
        obtain ⟨a, ha, rfl⟩ := List.mem_map.mp hk
        obtain ⟨run, hrun, rfl⟩ := List.mem_map.mp ha
        split
        · rfl
        · rename_i hspace
          exact hruns run hrun (Bool.eq_false_iff.mpr hspace)
      | markup m =>
        rw [atomsOf, List.map_singleton, List.sum_singleton]
        exact hmarkup m
      | hardBreak t =>
        rw [hbreak]
        rfl
    rw [atoms, List.flatMap_cons, List.map_append, List.sum_append, hone, List.map_cons, List.sum_cons]
    exact congrArg (g f + ·) (ih fun t ht => htext t (List.mem_cons_of_mem _ ht))

end Atoms

section Collapsed

variable {c : Char} (b : Buffer)

theorem markupCount_collapsed (c : Char) : markupCount c (collapsed b) = markupCount c b := by
  have hsettle := sum_settle (μ := Fragment.markupCount c) (ν := fun _ => 0) rfl
    (fun _ => Nat.le_refl 0) (fun _ _ => rfl) (atoms id b)
  rw [sum_atoms id b (fun _ _ => ⟨rfl, fun _ _ _ => rfl⟩) (fun _ => rfl) fun _ => rfl] at hsettle
  exact Nat.le_antisymm hsettle.2 hsettle.1

theorem breakCount_collapsed_le : breakCount (collapsed b) ≤ breakCount b := by
  have hsettle := sum_settle (μ := Fragment.breakCount) (ν := id) rfl
    (fun n => Nat.le_of_eq (List.length_replicate ..)) (fun _ _ => rfl) (atoms id b)
  rw [sum_atoms (g := fun _ => 0) id b (fun _ _ => ⟨rfl, fun _ _ _ => rfl⟩) (fun _ => rfl) fun _ => rfl,
    breaksIn_atoms] at hsettle
  have hzero : (b.map fun _ => 0).sum = 0 :=
    List.sum_eq_zero_iff_forall_eq_nat.mpr (List.forall_mem_map.mpr fun _ _ => rfl)
  rw [hzero, Nat.zero_add] at hsettle
  exact hsettle.2

variable {b} (hc : Foreign c) (hquiet : Quiet c b)
include hc hquiet

theorem quiet_collapsed : Quiet c (collapsed b) := by
  suffices hall : ∀ f ∈ collapsed b, ∀ t, f = .text t → c ∈ t → Text.isSpace c = true from
    fun t ht => hall _ ht t rfl
  refine forall_mem_settle (fun n t h => by cases h) (fun t h hmem => ?_) fun f hf t hft hmem => ?_
  · cases h
    exact absurd (List.mem_singleton.mp hmem) hc.ne_space
  · rcases of_piece_mem_atoms hf with ⟨m, rfl, _⟩ | ⟨s, run, rfl, hs, hrun, _⟩
    · cases hft
    · cases hft
      refine hquiet s hs ?_
      rw [← Text.flatten_runs s]
      exact List.mem_flatten_of_mem hrun hmem

/-- A collapsed buffer holds the character as often as its markup does, up to its breaks. -/
theorem count_collapseWith (escape : Text → Text) (hescape : ∀ t, c ∉ t → c ∉ escape t) :
    markupCount c b ≤ (collapseWith escape b).count c ∧
      (collapseWith escape b).count c ≤ markupCount c b + feedCount c (breakCount b) := by
  have hspace : (Fragment.text [' ']).content.count c = 0 :=
    List.count_eq_zero.mpr fun h => hc.ne_space (List.mem_singleton.mp h)
  have hsettle := sum_settle (μ := fun f => f.content.count c) (ν := feedCount c) hspace
    (fun n => Nat.le_refl _) (feedCount_add c) (atoms escape b)
  have htext : ∀ t, .text t ∈ b → Fragment.markupCount c (.text t) = 0 ∧
      ∀ run ∈ Text.runs t, run.all Text.isSpace = false →
        (Fragment.text (escape run)).content.count c = 0 := by
    refine fun t ht => ⟨rfl, fun run hrun hspaces => List.count_eq_zero.mpr (hescape run ?_)⟩
    intro hmem
    have hink := no_space_of_mem_runs hrun hspaces c hmem
    rw [hquiet t ht (by rw [← Text.flatten_runs t]; exact List.mem_flatten_of_mem hrun hmem)] at hink
    cases hink
  have hatoms := sum_atoms (μ := fun f => f.content.count c) (g := Fragment.markupCount c) escape b
    htext (fun _ => rfl) fun _ => rfl
  rw [hatoms, breaksIn_atoms] at hsettle
  rw [collapseWith, raw, List.count_flatMap]
  exact hsettle

end Collapsed

end Buffer

/-! ## Adding nodes -/

namespace Inline

open Buffer

/-- What is added to a buffer holds the character `held` times in its markup, and up to `breaks` line
breaks besides, some of which may have become markup. -/
structure Accounts (c : Char) (held breaks : Nat) (b b' : Buffer) : Prop where
  quiet : Quiet c b'
  least : markupCount c b + held ≤ markupCount c b'
  most : markupCount c b' + feedCount c (breakCount b') ≤
    markupCount c b + held + feedCount c (breakCount b + breaks)

namespace Accounts

variable {c : Char} {held held' breaks breaks' : Nat} {b b' b'' child d : Buffer}

theorem refl (h : Quiet c b) : Accounts c 0 0 b b := ⟨h, Nat.le_refl _, Nat.le_refl _⟩

theorem trans (h : Accounts c held breaks b b') (h' : Accounts c held' breaks' b' b'') :
    Accounts c (held + held') (breaks + breaks') b b'' := by
  refine ⟨h'.quiet, ?_, ?_⟩
  · have hleast := h.least
    have hleast' := h'.least
    omega
  · have hmost := h.most
    have hmost' := h'.most
    rw [feedCount_add] at hmost hmost'
    rw [feedCount_add, feedCount_add]
    omega

theorem mono (h : Accounts c held breaks b b') (hle : breaks ≤ breaks') :
    Accounts c held breaks' b b' := by
  refine ⟨h.quiet, h.least, h.most.trans ?_⟩
  have hfeed := feedCount_le (c := c) (Nat.add_le_add_left hle (breakCount b))
  omega

/-- What a child holds may be added in another form, with `more` of the character. -/
theorem append (hb : Quiet c b) (h : Accounts c held breaks [] child) (hd : Quiet c d) (more : Nat)
    (hleast : markupCount c child + more ≤ markupCount c d)
    (hmost : markupCount c d + feedCount c (breakCount d) ≤
      markupCount c child + more + feedCount c (breakCount child)) :
    Accounts c (more + held) breaks b (b ++ d) := by
  refine ⟨hb.append hd, ?_, ?_⟩
  · have hchild := h.least
    rw [markupCount_append]
    rw [show markupCount c [] = 0 from rfl] at hchild
    omega
  · have hchild := h.most
    rw [show markupCount c [] = 0 from rfl, show breakCount [] = 0 from rfl] at hchild
    simp only [Nat.zero_add] at hchild
    rw [markupCount_append, breakCount_append, feedCount_add, feedCount_add]
    omega

theorem addMarkup (hb : Quiet c b) (m : Text) : Accounts c (m.count c) 0 b (b.addMarkup m) := by
  rw [Buffer.addMarkup]
  split
  · rename_i hempty
    rw [List.isEmpty_iff.mp hempty]
    exact .refl hb
  · have hquiet : Quiet c [.markup m] := fun t ht => by cases List.mem_singleton.mp ht
    refine ⟨hb.append hquiet, ?_, ?_⟩
    · rw [markupCount_append]
      exact Nat.le_refl _
    · rw [markupCount_append, breakCount_append]
      exact Nat.le_refl _

theorem addBreak (hb : Quiet c b) : Accounts c 0 1 b b.addBreak := by
  have hquiet : Quiet c [.hardBreak ['\n']] := fun t ht => by cases List.mem_singleton.mp ht
  refine ⟨hb.append hquiet, ?_, ?_⟩
  · rw [Buffer.addBreak, markupCount_append]
    exact Nat.le_refl _
  · rw [Buffer.addBreak, markupCount_append, breakCount_append]
    exact Nat.le_refl _

theorem addText (hb : Quiet c b) {t : Text} (ht : c ∈ t → Text.isSpace c = true) :
    Accounts c 0 0 b (b.addText t) := by
  rw [Buffer.addText]
  split
  · exact .refl hb
  · have hquiet : Quiet c [.text t] := fun s hs => by
      cases List.mem_singleton.mp hs
      exact ht
    refine ⟨hb.append hquiet, ?_, ?_⟩
    · rw [markupCount_append]
      exact Nat.le_refl _
    · rw [markupCount_append, breakCount_append]
      exact Nat.le_refl _

variable (hc : Foreign c)
include hc

theorem spaceIf (hb : Quiet c b) (wanted : Bool) : Accounts c 0 0 b (b.spaceIf wanted) := by
  rw [Buffer.spaceIf]
  split
  · exact addText hb fun hmem => absurd (List.mem_singleton.mp hmem) hc.ne_space
  · exact .refl hb

theorem addSurrounded (hb : Quiet c b) (h : Accounts c held breaks [] child) (hd : Quiet c d)
    (more : Nat) (hleast : markupCount c child + more ≤ markupCount c d)
    (hmost : markupCount c d + feedCount c (breakCount d) ≤
      markupCount c child + more + feedCount c (breakCount child)) :
    Accounts c (more + held) breaks b (b.addSurrounded child d) := by
  have hopen := spaceIf hc hb child.edges.1
  have hmiddle := hopen.trans (append hopen.quiet h hd more hleast hmost)
  have hall := hmiddle.trans (spaceIf hc hmiddle.quiet child.edges.2)
  rwa [Nat.zero_add, Nat.zero_add, Nat.add_zero, Nat.add_zero] at hall

/-- A child that collapses to nothing has no markup. -/
theorem addStandIn (hb : Quiet c b) (h : Accounts c held breaks [] child)
    (hempty : (collapsed child).isEmpty = true) : Accounts c held breaks b (b.addStandIn child) := by
  have hzero : markupCount c child = 0 := by
    rw [← markupCount_collapsed, List.isEmpty_iff.mp hempty]
    rfl
  have hleast := h.least
  have hheld : held = 0 := by omega
  rw [hheld]
  exact (spaceIf hc hb _).mono (Nat.zero_le _)

/-- The markup of a collapsed child is the markup of the child. -/
theorem addAnchor (hb : Quiet c b) (h : Accounts c held breaks [] child) :
    Accounts c held breaks b (addAnchor b child) := by
  simp only [Inline.addAnchor]
  split
  · rename_i hempty
    exact addStandIn hc hb h hempty
  · have hcollapsed := markupCount_collapsed child c
    have hbreaks := feedCount_le (c := c) (breakCount_collapsed_le child)
    have hall := addSurrounded hc hb h (quiet_collapsed hc h.quiet) 0 (by omega) (by omega)
    rwa [Nat.zero_add] at hall

theorem addWrapped (hb : Quiet c b) (h : Accounts c held breaks [] child) {delimiter : Text}
    (hd : delimiter ⊆ lineMarks) :
    Accounts c held breaks b (b.addWrapped child delimiter) := by
  simp only [Buffer.addWrapped]
  split
  · rename_i hempty
    exact addStandIn hc hb h hempty
  · have hmark : markupCount c [.markup delimiter] = 0 := hc.count_marks hd
    have hquiet : Quiet c [.markup delimiter] := fun t ht => by cases List.mem_singleton.mp ht
    have hcollapsed := markupCount_collapsed child c
    have hbreaks := feedCount_le (c := c) (breakCount_collapsed_le child)
    have hmarkup : markupCount c ([.markup delimiter] ++ collapsed child ++ [.markup delimiter]) =
        markupCount c child := by
      rw [markupCount_append, markupCount_append, hmark, hcollapsed]
      omega
    have hbreak : breakCount ([.markup delimiter] ++ collapsed child ++ [.markup delimiter]) =
        breakCount (collapsed child) := by
      rw [breakCount_append, breakCount_append]
      show 0 + _ + 0 = _
      omega
    have hall := addSurrounded hc hb h ((hquiet.append (quiet_collapsed hc h.quiet)).append hquiet)
      0 (by rw [hmarkup]; exact Nat.le_refl _) (by rw [hmarkup, hbreak]; omega)
    rwa [Nat.zero_add] at hall

/-- A link takes its label over as markup, breaks and all. -/
theorem addLink (hb : Quiet c b) {label : Buffer} (h : Accounts c held breaks [] label) {n : Node}
    (hn : n.role = .link) : Accounts c (taken c n + held) breaks b (addLink b label (hrefOf n)) := by
  have hescape : ∀ t, c ∉ t → c ∉ Markdown.escapeLabel t := fun t ht => by
    rw [← List.count_eq_zero] at ht ⊢
    rw [hc.count_escapeLabel, ht]
  have hcollapse := count_collapseWith hc h.quiet Markdown.escapeLabel hescape
  have hmarkup : ∀ m, markupCount c [.markup m] = m.count c := fun m => rfl
  have hbreak : ∀ m, breakCount [.markup m] = 0 := fun m => rfl
  have hzero : feedCount c 0 = 0 := rfl
  refine addSurrounded hc hb h (fun t ht => by cases List.mem_singleton.mp ht) _ ?_ ?_
  · rw [hmarkup, hc.count_linkMarkup hn]
    omega
  · rw [hmarkup, hbreak, hzero, hc.count_linkMarkup hn]
    omega

end Accounts

end Inline

namespace Buffer

variable {c : Char}

theorem markupCount_reverse (b : Buffer) : markupCount c b.reverse = markupCount c b := by
  rw [markupCount, List.map_reverse, List.sum_reverse]
  rfl

theorem breakCount_reverse (b : Buffer) : breakCount b.reverse = breakCount b := by
  rw [breakCount, List.map_reverse, List.sum_reverse]
  rfl

theorem quiet_reverse {b : Buffer} (h : Quiet c b) : Quiet c b.reverse :=
  fun t ht => h t (List.mem_reverse.mp ht)

theorem mem_of_mem_pruneText {t : Text} (h : c ∈ pruneText t) : c ∈ t := by
  rw [pruneText] at h
  split at h
  · rw [Text.dropEndWhile, List.mem_reverse] at h
    exact List.mem_reverse.mp ((List.dropWhile_sublist _).subset h)
  · exact h

theorem markupCount_pruneEnd (fs : Buffer) : markupCount c (pruneEnd fs) = markupCount c fs := by
  have htext : ∀ f gs, f.markupCount c = 0 → markupCount c (f :: gs) = markupCount c gs := by
    intro f gs hf
    rw [markupCount, List.map_cons, List.sum_cons, hf, Nat.zero_add]
    rfl
  fun_induction pruneEnd fs with
  | case1 => rfl
  | case2 => rfl
  | case3 t before _ ih => rw [ih, htext _ _ rfl]
  | case4 t before => rw [htext _ _ rfl, htext _ _ rfl]
  | case5 t before _ ih => rw [ih, htext _ _ rfl]
  | case6 => rfl

theorem breakCount_pruneEnd_le (fs : Buffer) : breakCount (pruneEnd fs) ≤ breakCount fs := by
  have hcons : ∀ f gs, breakCount (f :: gs) = f.breakCount + breakCount gs := fun _ _ => rfl
  fun_induction pruneEnd fs with
  | case1 => exact Nat.le_refl _
  | case2 => exact Nat.le_refl _
  | case3 t before _ ih =>
    rw [hcons]
    omega
  | case4 t before =>
    rw [hcons, hcons]
    exact Nat.le_refl _
  | case5 t before _ ih =>
    rw [hcons]
    omega
  | case6 => exact Nat.le_refl _

theorem quiet_pruneEnd {fs : Buffer} (h : Quiet c fs) : Quiet c (pruneEnd fs) := by
  fun_induction pruneEnd fs with
  | case1 => exact h
  | case2 => exact h
  | case3 t before _ ih => exact ih fun s hs => h s (List.mem_cons_of_mem _ hs)
  | case4 t before =>
    intro s hs hmem
    rcases List.mem_cons.mp hs with heq | hs
    · cases heq
      exact h t (List.mem_cons_self ..) (mem_of_mem_pruneText hmem)
    · exact h s (List.mem_cons_of_mem _ hs) hmem
  | case5 t before _ ih => exact ih fun s hs => h s (List.mem_cons_of_mem _ hs)
  | case6 => exact h

end Buffer

namespace Inline

open Buffer Node

variable {c : Char}

/-- Pruning takes text and breaks away, but no markup. -/
theorem Accounts.prune {b : Buffer} (hb : Quiet c b) : Accounts c 0 0 b b.prune := by
  refine ⟨quiet_reverse (quiet_pruneEnd (quiet_reverse hb)), ?_, ?_⟩
  · rw [Buffer.prune, markupCount_reverse, markupCount_pruneEnd, markupCount_reverse]
    exact Nat.le_refl _
  · have hle := breakCount_pruneEnd_le b.reverse
    rw [breakCount_reverse] at hle
    have hfeed := feedCount_le (c := c) hle
    rw [Buffer.prune, markupCount_reverse, markupCount_pruneEnd, markupCount_reverse,
      breakCount_reverse]
    exact Nat.add_le_add_left hfeed _

/-- Code brings the character in nowhere among elements with these tags. -/
def CodeSpares (c : Char) (tags : List Text) : Prop :=
  "code".toList ∈ tags → ∀ t, c ∉ Markdown.codeSpan t

theorem CodeSpares.mono {xs ys : List Text} (h : CodeSpares c ys) (hsub : xs ⊆ ys) :
    CodeSpares c xs := fun hmem => h (hsub hmem)

/-- The number of `br` elements in a node, itself included. -/
def lineBreaks (n : Node) : Nat := n.tags.count "br".toList

def lineBreaksAmong (ns : List Node) : Nat := (tagsAll ns).count "br".toList

theorem tag_of_code {n : Node} (h : n.role = .code) : n.tag = "code".toList :=
  tag_of_role h (by decide) (by decide)

theorem tag_of_lineBreak {n : Node} (h : n.role = .lineBreak) : n.tag = "br".toList :=
  tag_of_role h (by decide) (by decide)

mutual

theorem accounts_addNode (hc : Foreign c) (scope : Scope) : (n : Node) → CodeSpares c n.tags → (b : Buffer) →
    Quiet c b → Accounts c (takenAll c (references n)) (lineBreaks n) b (addNode scope n b).1
  | .text t, _, b, hb => Accounts.addText hb (hc.text t)
  | .comment t, _, b, hb => .refl hb
  | .directive k t, _, b, hb => .refl hb
  | .element name attrs cs, hcode, b, hb => by
    have hbelow : CodeSpares c (tagsAll cs) := hcode.mono (List.subset_cons_self _ _)
    have hle : lineBreaksAmong cs ≤ lineBreaks (.element name attrs cs) :=
      (List.sublist_cons_self ..).count_le _
    have hlabel := (accounts_addNodes hc (name :: scope) false cs hbelow [] (quiet_nil c)).mono hle
    have hnone : ∀ b', Accounts c 0 0 b b' → Accounts c 0 (lineBreaks (.element name attrs cs)) b b' :=
      fun b' h => h.mono (Nat.zero_le _)
    cases hrole : (Node.element name attrs cs).role with
    | ignored =>
      simp only [addNode, references, hrole]
      exact hnone _ (.refl hb)
    | link =>
      simp only [addNode, references, hrole]
      split
      · exact Accounts.addAnchor hc hb hlabel
      split
      · exact Accounts.addLink hc hb hlabel hrole
      · exact hnone _ (.prune hb)
    | lineBreak =>
      simp only [addNode, references, hrole]
      refine (Accounts.addBreak hb).mono ?_
      rw [lineBreaks, tags, ← tag_of_lineBreak hrole]
      exact List.count_pos_iff.mpr (List.mem_cons_self ..)
    | image =>
      have hcount := hc.count_imageMarkup hrole
      simp only [addNode, hrole]
      rw [← hcount]
      exact (Accounts.addMarkup hb _).mono (Nat.zero_le _)
    | strong =>
      simp only [addNode, references, hrole]
      exact Accounts.addWrapped hc hb hlabel (by decide)
    | emphasis =>
      simp only [addNode, references, hrole]
      exact Accounts.addWrapped hc hb hlabel (by decide)
    | code =>
      have hspan := hcode (by rw [tags, ← tag_of_code hrole]; exact List.mem_cons_self ..)
      have hadd := Accounts.addMarkup hb (Markdown.codeSpan ((Node.element name attrs cs).textIn scope))
      rw [List.count_eq_zero.mpr (hspan _)] at hadd
      simp only [addNode, references, hrole]
      exact hnone _ hadd
    | _ =>
      simp only [addNode, references, hrole]
      exact (accounts_addNodes hc (name :: scope) false cs hbelow b hb).mono hle

theorem accounts_addNodes (hc : Foreign c) (scope : Scope) (dropped : Bool) : (ns : List Node) →
    CodeSpares c (tagsAll ns) → (b : Buffer) → Quiet c b →
      Accounts c (takenAll c (referencesAmong ns)) (lineBreaksAmong ns) b
        (addNodes scope dropped ns b)
  | [], _, b, hb => by
    rw [addNodes]
    exact .refl hb
  | n :: ns, hcode, b, hb => by
    have hn := hcode.mono (List.subset_append_left n.tags (tagsAll ns))
    have hns := hcode.mono (List.subset_append_right n.tags (tagsAll ns))
    rw [addNodes, referencesAmong, takenAll_append, lineBreaksAmong, tagsAll, List.count_append]
    split
    · rename_i hskip
      have hzero : takenAll c (references n) = 0 := by
        cases n with
        | text t => rfl
        | element name attrs cs => simp [isSeparator] at hskip
        | comment t => rfl
        | directive k t => rfl
      rw [hzero, Nat.zero_add]
      exact (accounts_addNodes hc scope false ns hns b hb).mono (Nat.le_add_left _ _)
    · have hfirst := accounts_addNode hc scope n hn b hb
      exact hfirst.trans (accounts_addNodes hc scope _ ns hns _ hfirst.quiet)

end

/-- What a run holds of a foreign character is what its links and images take over, and as many
line breaks at most as there are `br` elements. -/
theorem count_collapse (hc : Foreign c) (scope : Scope) {ns : List Node} (hcode : CodeSpares c (tagsAll ns)) :
    takenAll c (referencesAmong ns) ≤ (collapse scope ns).count c ∧
      (collapse scope ns).count c ≤
        takenAll c (referencesAmong ns) + feedCount c (lineBreaksAmong ns) := by
  have haccounts := accounts_addNodes hc scope false ns hcode [] (quiet_nil c)
  have hcollapse := count_collapseWith hc haccounts.quiet id fun _ ht => ht
  have hleast := haccounts.least
  have hmost := haccounts.most
  rw [show markupCount c [] = 0 from rfl, Nat.zero_add] at hleast hmost
  rw [show breakCount [] = 0 from rfl, Nat.zero_add] at hmost
  exact ⟨hleast.trans hcollapse.1, hcollapse.2.trans hmost⟩

end Inline

end Hypermark
