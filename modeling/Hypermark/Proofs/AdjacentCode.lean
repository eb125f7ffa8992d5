import Hypermark.Proofs.CodeSpans
import Hypermark.Proofs.WordBoundaries

/-!
# Code next to code

Each code span is fenced with regard to its own content only.  Side by side, the run that closes one
span and the run that opens the next are a single run, so a reader finds neither of the two.  Any
text in between keeps them apart, white space as well, since it collapses to a space.

* `spells_collapsed`, `touching_collapsed`: collapsing keeps the spans and what parts them.
* `tickRuns_raw`: the runs of a line are those of its spans, less one for each pair that touches.
* `codeSpans_raw_iff`: a line reads back exactly if no spans touch in it.
* `codeSpans_collapse_iff`: the same for code elements among text.
-/

namespace Hypermark

open Text Markdown

theorem isEmpty_append {α : Type} (xs ys : List α) :
    (xs ++ ys).isEmpty = (xs.isEmpty && ys.isEmpty) := by
  cases xs <;> rfl

namespace Buffer

/-! ## Lines of text and spans -/

/-- The number of finished pieces that come right after another one; `behind` says that one comes
before the first fragment. -/
def touching (behind : Bool) : Buffer → Nat
  | [] => 0
  | .markup _ :: fs => behind.toNat + touching true fs
  | f :: fs => touching (behind && f.content.isEmpty) fs

/-- Neither finished Markdown nor text with backticks. -/
def Tickless (f : Fragment) : Prop := f.isMarkup = false ∧ backtick ∉ f.content

/-- The buffer is made of plain fragments and of the code spans of the given codes. -/
inductive Spells : List Text → Buffer → Prop
  | nil : Spells [] []
  | code {t : Text} {codes : List Text} {b : Buffer} (h : spanContent t ≠ []) :
    Spells codes b → Spells (t :: codes) (.markup (codeSpan t) :: b)
  | plain {f : Fragment} {codes : List Text} {b : Buffer} (hf : Tickless f) :
    Spells codes b → Spells codes (f :: b)

variable {codes : List Text} {b p : Buffer}

theorem touching_cons_plain {f : Fragment} (hf : Tickless f) (behind : Bool) (b : Buffer) :
    touching behind (f :: b) = touching (behind && f.content.isEmpty) b := by
  cases f with
  | markup m => exact absurd hf.1 (by simp [Fragment.isMarkup])
  | text t => rfl
  | hardBreak t => rfl

theorem touching_append_plain (hp : ∀ f ∈ p, Tickless f) (behind : Bool) (b : Buffer) :
    touching behind (p ++ b) = touching (behind && (raw p).isEmpty) b := by
  induction p generalizing behind with
  | nil => rw [List.nil_append, raw, List.flatMap_nil, List.isEmpty_nil, Bool.and_true]
  | cons f p ih =>
    rw [List.forall_mem_cons] at hp
    have hraw : (raw (f :: p)).isEmpty = (f.content.isEmpty && (raw p).isEmpty) := by
      rw [raw, List.flatMap_cons, isEmpty_append]
      rfl
    rw [List.cons_append, touching_cons_plain hp.1, ih hp.2, hraw, Bool.and_assoc]

theorem spells_append_plain (hp : ∀ f ∈ p, Tickless f) :
    Spells codes (p ++ b) ↔ Spells codes b := by
  induction p with
  | nil => exact Iff.rfl
  | cons f p ih =>
    rw [List.forall_mem_cons] at hp
    rw [List.cons_append, ← ih hp.2]
    refine ⟨fun h => ?_, .plain hp.1⟩
    cases h with
    | code _ _ => exact absurd hp.1.1 (by simp [Fragment.isMarkup])
    | plain _ h => exact h

/-! ## Collapsing -/

theorem tickless_gap (gap : Gap) : ∀ f ∈ gap.fragments, Tickless f := by
  unfold Gap.fragments
  split
  · refine (List.forall_mem_singleton ..).mpr ⟨rfl, fun h => ?_⟩
    exact absurd (List.eq_of_mem_replicate h) (by decide)
  split
  · exact (List.forall_mem_singleton ..).mpr ⟨rfl, by decide⟩
  · exact fun f hf => absurd hf List.not_mem_nil

theorem tickless_settleAfter {f : Fragment} (hf : Tickless f) (gap : Gap) :
    ∀ g ∈ settleAfter gap (atomsOf id f), Tickless g := by
  obtain ⟨first, hfirst⟩ := exists_gap_settleAfter gap (atomsOf id f)
  rw [hfirst, List.forall_mem_append]
  have hfeeds : ∀ n, Tickless (.hardBreak (List.replicate n '\n')) := fun n =>
    ⟨rfl, fun h => absurd (List.eq_of_mem_replicate h) (by decide)⟩
  refine ⟨tickless_gap first, forall_mem_settle hfeeds ⟨rfl, by decide⟩ fun g hg => ?_⟩
  have hpiece : Atom.piece g ∈ atoms id [f] := by rwa [atoms, List.flatMap_singleton]
  rcases of_piece_mem_atoms hpiece with ⟨m, rfl, hm⟩ | ⟨t, run, rfl, ht, hrun, _⟩
  · rw [← List.mem_singleton.mp hm] at hf
    exact absurd hf.1 (by simp [Fragment.isMarkup])
  · rw [← List.mem_singleton.mp ht] at hf
    refine ⟨rfl, fun hmem => hf.2 ?_⟩
    rw [← flatten_runs t]
    exact List.mem_flatten.mpr ⟨run, hrun, hmem⟩

theorem spells_settleAfter (h : Spells codes b) (gap : Gap) :
    Spells codes (settleAfter gap (atoms id b)) := by
  induction h generalizing gap with
  | nil => exact .nil
  | code hne _ ih => exact (spells_append_plain (tickless_gap gap)).mpr (.code hne (ih Gap.none))
  | @plain f codes b hf _ ih =>
    have hatoms : atoms id (f :: b) = atomsOf id f ++ atoms id b := List.flatMap_cons
    rw [hatoms, settleAfter_append, spells_append_plain (tickless_settleAfter hf gap)]
    exact ih _

/-- Collapsing keeps the spans. -/
theorem spells_collapsed (h : Spells codes b) : Spells codes (collapsed b) := by
  obtain ⟨first, hfirst⟩ := exists_gap_settleAfter Gap.none (atoms id b)
  have hsettled := spells_settleAfter h Gap.none
  rw [hfirst] at hsettled
  exact (spells_append_plain (tickless_gap first)).mp hsettled

/-- A text leaves a piece or a space to stand behind the gap before it. -/
theorem parts_of_text {t : Text} (ht : t ≠ []) (gap : Gap) :
    ((raw (settleAfter gap (atomsOf id (.text t)))).isEmpty &&
      (gapFrom gap (atomsOf id (.text t))).fragments.isEmpty) = false := by
  obtain ⟨c, t, rfl⟩ := List.exists_cons_of_ne_nil ht
  obtain ⟨run, rest, hruns⟩ := exists_runs_cons c t
  have hne : atomsOf id (.text (c :: t)) ≠ [] := by
    rw [atomsOf, hruns]
    exact List.cons_ne_nil _ _
  -- It is the last atom that counts: nothing closes the gap that it leaves or makes it vanish.
  obtain ⟨before, last, hsplit⟩ := (List.eq_nil_or_concat' _).resolve_left hne
  have hlast : last ∈ atomsOf id (.text (c :: t)) := by
    rw [hsplit]
    exact List.mem_append_right _ (List.mem_singleton_self _)
  obtain ⟨lastRun, hmem, hshape⟩ := List.mem_map.mp hlast
  rw [hsplit, settleAfter_append, gapFrom_append, raw_append]
  split at hshape
  · subst hshape
    have hspace : ∀ g : Gap, ({ g with space := true } : Gap).fragments.isEmpty = false := by
      intro g
      unfold Gap.fragments
      split <;> rfl
    rw [gapFrom, gapFrom, hspace, Bool.and_false]
  · subst hshape
    obtain ⟨d, s, rfl, _⟩ := Inline.uniform_of_mem_runs hmem
    have hpiece : ∀ g : Gap,
        (raw (settleAfter g [.piece (.text (id (d :: s)))])).isEmpty = false := by
      intro g
      rw [settleAfter, raw_append, isEmpty_append]
      exact Bool.and_false _
    rw [isEmpty_append, hpiece, Bool.and_false, Bool.false_and]

theorem touching_settleAfter (b : Buffer) (h : Spells codes b) (behind : Bool) (gap : Gap) :
    touching behind (settleAfter gap (atoms id b)) =
      touching (behind && gap.fragments.isEmpty) b := by
  induction h generalizing behind gap with
  | nil => rfl
  | @code t codes b hne _ ih =>
    have hgap : (raw gap.fragments).isEmpty = gap.fragments.isEmpty := by
      unfold Gap.fragments
      split
      · rename_i hpos
        obtain ⟨n, hn⟩ := Nat.exists_eq_add_of_le' hpos
        rw [hn]
        rfl
      split <;> rfl
    show touching behind (gap.fragments ++ .markup (codeSpan t) :: _) = _
    rw [touching_append_plain (tickless_gap gap), hgap, touching, touching]
    exact congrArg _ (ih true Gap.none)
  | @plain f codes b hf _ ih =>
    have hatoms : atoms id (f :: b) = atomsOf id f ++ atoms id b := List.flatMap_cons
    rw [hatoms, settleAfter_append, touching_append_plain (tickless_settleAfter hf gap), ih,
      touching_cons_plain hf, Bool.and_assoc]
    congr 1
    cases f with
    | markup m => exact absurd hf.1 (by simp [Fragment.isMarkup])
    | text t =>
      by_cases ht : t = []
      · subst ht
        simp [atomsOf, runs, settleAfter, gapFrom, raw, Fragment.content]
      · rw [parts_of_text ht, Bool.and_false, show (Fragment.text t).content = t from rfl,
          List.isEmpty_eq_false_iff.mpr ht, Bool.and_false]
    | hardBreak t =>
      cases t with
      | nil => simp [atomsOf, settleAfter, gapFrom, raw, Fragment.content]
      | cons c t =>
        have hpos : 0 < gap.breaks + (c :: t).length := by
          rw [List.length_cons]
          omega
        have hgap : (gapFrom gap (atomsOf id (.hardBreak (c :: t)))).fragments.isEmpty = false := by
          rw [atomsOf, gapFrom, gapFrom, Gap.fragments, if_pos hpos]
          rfl
        rw [hgap, Bool.and_false, Bool.and_false,
          show (Fragment.hardBreak (c :: t)).content.isEmpty = false from rfl, Bool.and_false]

/-- Collapsing leaves apart what is apart. -/
theorem touching_collapsed (h : Spells codes b) :
    touching false (collapsed b) = touching false b := by
  obtain ⟨first, hfirst⟩ := exists_gap_settleAfter Gap.none (atoms id b)
  have hsettled := touching_settleAfter b h false Gap.none
  rw [hfirst, touching_append_plain (tickless_gap first)] at hsettled
  exact hsettled

/-! ## Reading a line -/

theorem raw_cons (f : Fragment) (b : Buffer) : raw (f :: b) = f.content ++ raw b :=
  List.flatMap_cons

theorem head?_codeSpan {t : Text} (h : spanContent t ≠ []) (s : Text) :
    (codeSpan t ++ s).head? = some backtick := by
  rw [codeSpan_eq h]
  rfl

/-- What comes behind a span touches it if the text goes on with a backtick. -/
theorem touching_true (h : Spells codes b) : touching true b =
    touching false b + if (raw b).head? = some backtick then 1 else 0 := by
  induction h with
  | nil => rfl
  | @code t codes b hne _ _ =>
    rw [raw_cons, show (Fragment.markup (codeSpan t)).content = codeSpan t from rfl,
      head?_codeSpan hne, if_pos rfl, touching, touching, Bool.toNat_true, Bool.toNat_false]
    omega
  | @plain f codes b hf _ ih =>
    rw [touching_cons_plain hf, touching_cons_plain hf, raw_cons, Bool.true_and, Bool.false_and]
    cases hc : f.content with
    | nil => exact ih
    | cons c t =>
      have hhead : ¬(c :: t ++ raw b).head? = some backtick := by
        intro hhead
        have hmem := hf.2
        rw [hc, ← Option.some.inj hhead] at hmem
        exact hmem (List.mem_cons_self ..)
      rw [if_neg hhead]
      rfl

theorem tickRuns_codeSpan {t : Text} (h : spanContent t ≠ []) :
    tickRuns (codeSpan t) = spanCost (spanBody t) := by
  have hfits := fitsFence_spanBody h
  have hopening := tickRuns_append (backticks (longestBackticks (spanContent t) + 1)) (spanBody t)
  have hclosing := tickRuns_append
    (backticks (longestBackticks (spanContent t) + 1) ++ spanBody t)
    (backticks (longestBackticks (spanContent t) + 1))
  rw [if_neg fun hmeet => hfits.opens hmeet.2, tickRuns_run] at hopening
  rw [List.getLast?_append_of_ne_nil _ (spanBody_ne_nil h), if_neg fun hmeet => hfits.ends hmeet.1,
    tickRuns_run] at hclosing
  rw [codeSpan_eq h, spanCost]
  omega

theorem getLast?_codeSpan {t : Text} (h : spanContent t ≠ []) :
    (codeSpan t).getLast? = some backtick := by
  have hrun := getLast?_run (longestBackticks (spanContent t))
  rw [codeSpan_eq h, List.getLast?_append_of_ne_nil _ (by
    rintro hnil
    rw [hnil] at hrun
    cases hrun)]
  exact hrun

/-- The runs of a line are those of its spans, less one for each pair that touches. -/
theorem tickRuns_raw (h : Spells codes b) :
    tickRuns (raw b) + touching false b = (codes.map fun t => spanCost (spanBody t)).sum := by
  induction h with
  | nil => rfl
  | @code t codes b hne hb ih =>
    have hseam := tickRuns_append (codeSpan t) (raw b)
    rw [getLast?_codeSpan hne, tickRuns_codeSpan hne] at hseam
    simp only [true_and] at hseam
    rw [raw_cons, show (Fragment.markup (codeSpan t)).content = codeSpan t from rfl, touching,
      touching_true hb, List.map_cons, List.sum_cons, Bool.toNat_false]
    omega
  | @plain f codes b hf hb ih =>
    rw [raw_cons, tickRuns_plain_append hf.2, touching_cons_plain hf, Bool.false_and]
    exact ih

/-- A line in which no spans touch reads back. -/
theorem codeSpans_raw (h : Spells codes b) (happart : touching false b = 0) :
    codeSpans (raw b) = codes.map spanBody := by
  induction h with
  | nil => rfl
  | @code t codes b hne hb ih =>
    rw [touching, touching_true hb] at happart
    have hrest : (raw b).head? ≠ some backtick := by
      intro hhead
      rw [if_pos hhead] at happart
      omega
    rw [raw_cons, show (Fragment.markup (codeSpan t)).content = codeSpan t from rfl,
      codeSpan_eq hne, codeSpans_span_append (spanBody_ne_nil hne) (fitsFence_spanBody hne) hrest,
      ih (by omega), List.map_cons]
  | @plain f codes b hf hb ih =>
    rw [touching_cons_plain hf, Bool.false_and] at happart
    rw [raw_cons, codeSpans_plain_append hf.2]
    exact ih happart

/-- Where spans touch, too few runs of backticks are left for all of them. -/
theorem touching_of_codeSpans (h : Spells codes b)
    (hread : (codeSpans (raw b)).map trim = codes.map spanContent) : touching false b = 0 := by
  have hcost : ∀ u, tickRuns (trim u) + 2 = spanCost u := fun u => by rw [tickRuns_trim, spanCost]
  have hspans : ((codeSpans (raw b)).map spanCost).sum =
      (codes.map fun t => spanCost (spanBody t)).sum := by
    have hcontents := congrArg (List.map fun u => tickRuns u + 2) hread
    rw [List.map_map, List.map_map] at hcontents
    calc ((codeSpans (raw b)).map spanCost).sum
        = ((codeSpans (raw b)).map ((fun u => tickRuns u + 2) ∘ trim)).sum := by
          simp only [Function.comp_def, hcost]
      _ = (codes.map ((fun u => tickRuns u + 2) ∘ spanContent)).sum := by rw [hcontents]
      _ = (codes.map fun t => spanCost (spanBody t)).sum := by
          simp only [Function.comp_def, spanCost, tickRuns_spanBody]
  have hbound := sum_cost_codeSpansFrom_le 0 [] (raw b)
  rw [if_pos rfl] at hbound
  have hruns := tickRuns_raw h
  rw [codeSpans] at hspans
  omega

theorem codeSpans_raw_iff (h : Spells codes b) :
    (codeSpans (raw b) = codes.map spanBody ↔ touching false b = 0) ∧
      ((codeSpans (raw b)).map trim = codes.map spanContent ↔ touching false b = 0) := by
  have hcontents : touching false b = 0 →
      (codeSpans (raw b)).map trim = codes.map spanContent := by
    intro happart
    rw [codeSpans_raw h happart, List.map_map]
    exact List.map_congr_left fun t _ => trim_spanBody t
  refine ⟨⟨fun hread => touching_of_codeSpans h ?_, codeSpans_raw h⟩,
    ⟨touching_of_codeSpans h, hcontents⟩⟩
  rw [hread, List.map_map]
  exact List.map_congr_left fun t _ => trim_spanBody t

end Buffer

/-! ## Nodes -/

namespace Inline

open Buffer

/-- A text without backticks, or a code element. -/
def IsTextOrCode : Node → Prop
  | .text t => backtick ∉ t
  | n => n.role = .code

/-- The texts of the code elements that have some content for a span, in order. -/
def codesAmong (scope : Scope) (ns : List Node) : List Text :=
  ((ns.filter fun n => n.role = .code).map (·.textIn scope)).filter fun t => spanContent t ≠ []

/-- Between any two code elements with content there is a text; `behind` says that one of them comes
before, with nothing in between. -/
def codesApart (scope : Scope) (behind : Bool) : List Node → Bool
  | [] => true
  | n :: ns =>
    if n.role = .code then
      if spanContent (n.textIn scope) = [] then codesApart scope behind ns
      else !behind && codesApart scope true ns
    else codesApart scope (behind && (n.textIn scope).isEmpty) ns

variable {scope : Scope} {ns : List Node}

/-- What a text or a code element adds to a line. -/
def added (scope : Scope) (n : Node) : Buffer := (addNode scope n []).1

theorem addNode_code {n : Node} (h : n.role = .code) (b : Buffer) :
    addNode scope n b = (b.addMarkup (codeSpan (n.textIn scope)), false) := by
  cases n with
  | text t => cases h
  | comment t => cases h
  | directive k t => cases h
  | element name attrs cs =>
    rw [addNode]
    simp only [h]

theorem addNode_eq_append {n : Node} (h : IsTextOrCode n) (b : Buffer) :
    addNode scope n b = (b ++ added scope n, false) := by
  cases n with
  | text t =>
    rw [added, addNode, addNode, addText, addText]
    split
    · rw [List.append_nil]
    · rfl
  | comment t => cases h
  | directive k t => cases h
  | element name attrs cs =>
    rw [added, addNode_code h, addNode_code h, addMarkup, addMarkup]
    split
    · rw [List.append_nil]
    · rfl

theorem addNodes_eq_append (h : ∀ n ∈ ns, IsTextOrCode n) (b : Buffer) :
    addNodes scope false ns b = b ++ ns.flatMap (added scope) := by
  induction ns generalizing b with
  | nil => rw [addNodes, List.flatMap_nil, List.append_nil]
  | cons n ns ih =>
    rw [List.forall_mem_cons] at h
    rw [addNodes_cons, addNode_eq_append h.1, ih h.2, List.flatMap_cons, List.append_assoc]

theorem isEmpty_escapeAngles (t : Text) : (escapeAngles t).isEmpty = t.isEmpty := by
  cases t with
  | nil => rfl
  | cons c t =>
    rw [escapeAngles, List.flatMap_cons, isEmpty_append]
    split
    · rfl
    split <;> rfl

theorem added_text (scope : Scope) (t : Text) :
    added scope (.text t) = if t = [] then [] else [.text (escapeAngles t)] := by
  rw [added, addNode, addText, isEmpty_escapeAngles]
  simp only [List.isEmpty_iff, List.nil_append]

theorem added_code {n : Node} (h : n.role = .code) : added scope n =
    if spanContent (n.textIn scope) = [] then [] else [.markup (codeSpan (n.textIn scope))] := by
  rw [added, addNode_code h, addMarkup]
  by_cases hnil : spanContent (n.textIn scope) = []
  · rw [if_pos hnil, codeSpan]
    simp [hnil]
  · have hspan : codeSpan (n.textIn scope) ≠ [] := fun hempty => by
      have hhead := head?_codeSpan hnil []
      rw [hempty] at hhead
      cases hhead
    rw [if_neg hnil, List.nil_append, if_neg (by simpa using hspan)]

theorem tickless_escapeAngles {t : Text} (h : backtick ∉ t) :
    Tickless (.text (escapeAngles t)) := by
  refine ⟨rfl, fun hmem => ?_⟩
  obtain ⟨c, hc, hin⟩ := List.mem_flatMap.mp hmem
  split at hin
  · exact absurd hin (by decide)
  split at hin
  · exact absurd hin (by decide)
  · exact h (List.mem_singleton.mp hin ▸ hc)

theorem spells_added (h : ∀ n ∈ ns, IsTextOrCode n) :
    Spells (codesAmong scope ns) (ns.flatMap (added scope)) := by
  induction ns with
  | nil => exact .nil
  | cons n ns ih =>
    rw [List.forall_mem_cons] at h
    rw [List.flatMap_cons]
    cases n with
    | text t =>
      have hcodes : codesAmong scope (.text t :: ns) = codesAmong scope ns := rfl
      rw [added_text, hcodes]
      split
      · exact ih h.2
      · exact .plain (tickless_escapeAngles h.1) (ih h.2)
    | comment t => cases h.1
    | directive k t => cases h.1
    | element name attrs cs =>
      have hrole : (Node.element name attrs cs).role = .code := h.1
      rw [added_code hrole, codesAmong, List.filter_cons_of_pos (by simpa using hrole),
        List.map_cons]
      by_cases hnil : spanContent ((Node.element name attrs cs).textIn scope) = []
      · rw [if_pos hnil, List.filter_cons_of_neg (by simpa using hnil)]
        exact ih h.2
      · rw [if_neg hnil, List.filter_cons_of_pos (by simpa using hnil)]
        exact .code hnil (ih h.2)

theorem touching_added_iff (h : ∀ n ∈ ns, IsTextOrCode n) (behind : Bool) :
    touching behind (ns.flatMap (added scope)) = 0 ↔ codesApart scope behind ns = true := by
  induction ns generalizing behind with
  | nil => exact iff_of_true rfl rfl
  | cons n ns ih =>
    rw [List.forall_mem_cons] at h
    rw [List.flatMap_cons, codesApart]
    cases n with
    | text t =>
      have hrole : ¬(Node.text t).role = .code := by
        show ¬Role.phrase = Role.code
        decide
      rw [if_neg hrole, added_text, ← ih h.2, show (Node.text t).textIn scope = t from rfl]
      by_cases hnil : t = []
      · rw [if_pos hnil, List.nil_append, hnil, List.isEmpty_nil, Bool.and_true]
      · rw [if_neg hnil, List.singleton_append, touching_cons_plain (tickless_escapeAngles h.1),
          show (Fragment.text (escapeAngles t)).content = escapeAngles t from rfl,
          isEmpty_escapeAngles]
    | comment t => cases h.1
    | directive k t => cases h.1
    | element name attrs cs =>
      have hrole : (Node.element name attrs cs).role = .code := h.1
      rw [if_pos hrole, added_code hrole]
      split
      · exact ih h.2 behind
      · rw [List.singleton_append, touching, Bool.and_eq_true, ← ih h.2 true, Nat.add_eq_zero_iff]
        cases behind <;> simp

/-- Code among text reads back from the line exactly if no two code elements stand side by side: the
spans are then found as they were written, and but for their padding they hold the contents that
were computed for the elements. -/
theorem codeSpans_collapse_iff (scope : Scope) {ns : List Node} (h : ∀ n ∈ ns, IsTextOrCode n) :
    (codeSpans (collapse scope ns) = (codesAmong scope ns).map spanBody ↔
        codesApart scope false ns = true) ∧
      ((codeSpans (collapse scope ns)).map trim = (codesAmong scope ns).map spanContent ↔
        codesApart scope false ns = true) := by
  have hspells : Spells (codesAmong scope ns) _ := spells_added h
  have hbuffer : buffer scope ns = ns.flatMap (added scope) := addNodes_eq_append h []
  have hread := codeSpans_raw_iff (spells_collapsed hspells)
  rw [touching_collapsed hspells, touching_added_iff h] at hread
  rw [collapse, hbuffer]
  exact hread

/-- A code element, a space and another one. -/
def spacedCode : List Node :=
  [.element "code".toList [] [.text "a".toList], .text " ".toList,
    .element "code".toList [] [.text "b".toList]]

theorem spaced_code_reads_back :
    (∀ n ∈ spacedCode, IsTextOrCode n) ∧ codesApart [] false spacedCode = true ∧
      codeSpans (collapse [] spacedCode) = (codesAmong [] spacedCode).map spanBody := by
  have hcode : ∀ t, IsTextOrCode (.element "code".toList [] [.text t]) := fun _ => rfl
  have hspace : IsTextOrCode (.text " ".toList) := by
    show backtick ∉ " ".toList
    decide
  have hnodes : ∀ n ∈ spacedCode, IsTextOrCode n := by
    simp only [spacedCode, List.forall_mem_cons]
    exact ⟨hcode _, hspace, hcode _, List.forall_mem_nil _⟩
  have hapart : codesApart [] false spacedCode = true := by decide
  exact ⟨hnodes, hapart, (codeSpans_collapse_iff [] hnodes).1.mpr hapart⟩

/-- Two code elements side by side. -/
def adjacentCode : List Node :=
  [.element "code".toList [] [.text "a".toList], .element "code".toList [] [.text "b".toList]]

/-- The two backticks in the middle close neither span, so that a single one is read. -/
theorem adjacent_code_merges :
    ¬(codeSpans (collapse [] adjacentCode)).map trim =
      (codesAmong [] adjacentCode).map spanContent := by
  decide

end Inline

end Hypermark
