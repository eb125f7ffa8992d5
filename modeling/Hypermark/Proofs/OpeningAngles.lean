import Hypermark.Proofs.TableShape

/-!
# Angle brackets that open a destination

In a link or an image a destination in angle brackets starts directly behind `](`.  A text where all
of its opening angle brackets stand so is scanned from left to right, with what has just been read of
`](` for a state.  Layout cuts such texts only at characters that leave nothing of it read, and puts
nothing between its two characters, so it keeps them as they are.

* `anglesOpen_iff`: the scan finds what the definition says.
* `AnglesOpen.itemText`, `AnglesOpen.captioned`: list items and tables.
* `AnglesOpen.normalize`: documents.
-/

namespace Hypermark

open Text Markdown

namespace Markdown

/-- A definition list goes on with a meaning of the current term. -/
def startsWithMeaning : List Definition → Bool
  | .meaning _ :: _ => true
  | _ => false

/-- The texts of a definition list that are shown: a term only if it has a meaning. -/
def entryLines : List Definition → List Text
  | [] => []
  | .term t :: rest => (if startsWithMeaning rest then [t] else []) ++ entryLines rest
  | .meaning m :: rest => m :: entryLines rest

end Markdown

/-! ## The scan -/

namespace Text

/-- Every opening angle bracket stands directly behind `](`. -/
def AnglesOpen (t : Text) : Prop :=
  ∀ before after, t = before ++ '<' :: after → "](".toList <:+ before

/-- How much of `](` has been read after one more character. -/
def openingRead (k : Nat) (c : Char) : Nat :=
  if c = ']' then 1 else if c = '(' ∧ k = 1 then 2 else 0

/-- The scan over a text, `k` being what has been read of `](` before it. -/
def OpensFrom (k : Nat) : Text → Prop
  | [] => True
  | c :: t => (c = '<' → k = 2) ∧ OpensFrom (openingRead k c) t

/-- The character is no part of `](` and no opening angle bracket. -/
def isAside (c : Char) : Bool := c != ']' && c != '(' && c != '<'

theorem openingRead_of_isAside {c : Char} (h : isAside c = true) (k : Nat) : openingRead k c = 0 := by
  simp only [isAside, Bool.and_eq_true, bne_iff_ne] at h
  rw [openingRead, if_neg h.1.1, if_neg fun hc => h.1.2 hc.1]

theorem isAside_of_isBlank {c : Char} (h : isBlank c = true) : isAside c = true := by
  simp only [isAside, Bool.and_eq_true, bne_iff_ne]
  refine ⟨⟨?_, ?_⟩, ?_⟩
  all_goals
    rintro rfl
    cases h

theorem opensFrom_cons_of_isAside {c : Char} (h : isAside c = true) (k : Nat) (t : Text) :
    OpensFrom k (c :: t) ↔ OpensFrom 0 t := by
  rw [OpensFrom, openingRead_of_isAside h]
  refine and_iff_right fun hc => ?_
  rw [hc] at h
  cases h

theorem opensFrom_append (k : Nat) (s t : Text) :
    OpensFrom k (s ++ t) ↔ OpensFrom k s ∧ OpensFrom (s.foldl openingRead k) t := by
  induction s generalizing k with
  | nil => rw [List.nil_append, OpensFrom, true_and, List.foldl_nil]
  | cons c s ih => rw [List.cons_append, OpensFrom, OpensFrom, ih, and_assoc, List.foldl_cons]

/-- A text that can stand at the start can stand anywhere. -/
theorem OpensFrom.anywhere {t : Text} (h : OpensFrom 0 t) (k : Nat) : OpensFrom k t := by
  induction t generalizing k with
  | nil => trivial
  | cons c t ih =>
    obtain ⟨hless, hrest⟩ := h
    refine ⟨fun hc => absurd (hless hc) (by decide), ?_⟩
    by_cases hread : openingRead k c = openingRead 0 c
    · rw [hread]
      exact hrest
    · -- Only `(` behind `]` is read in another way than at the start.
      have hzero : openingRead 0 c = 0 := by
        rw [openingRead, openingRead] at hread
        rw [openingRead]
        split at hread
        · exact absurd rfl hread
        · rename_i hc
          rw [if_neg hc, if_neg fun hand => absurd hand.2 (by decide)]
      rw [hzero] at hrest
      exact ih hrest _

theorem opensFrom_of_no_angle {t : Text} (h : '<' ∉ t) (k : Nat) : OpensFrom k t := by
  induction t generalizing k with
  | nil => trivial
  | cons c t ih =>
    rw [List.mem_cons, not_or] at h
    exact ⟨fun hc => absurd hc.symm h.1, ih h.2 _⟩

theorem foldl_openingRead_eq_two (t : Text) : t.foldl openingRead 0 = 2 ↔ "](".toList <:+ t := by
  have hone : ∀ s : Text, s.foldl openingRead 0 = 1 ↔ [']'] <:+ s := by
    intro s
    rcases List.eq_nil_or_concat' s with rfl | ⟨init, c, rfl⟩
    · decide
    · rw [List.foldl_concat, openingRead]
      by_cases hc : c = ']'
      · rw [if_pos hc, hc]
        exact iff_of_true rfl (List.suffix_append init [']'])
      · rw [if_neg hc]
        refine iff_of_false ?_ fun ⟨before, hbefore⟩ => ?_
        · split <;> decide
        · exact hc (List.append_singleton_inj.mp hbefore).2.symm
  rcases List.eq_nil_or_concat' t with rfl | ⟨init, c, rfl⟩
  · decide
  · rw [List.foldl_concat, openingRead]
    by_cases hc : c = '('
    · rw [hc, if_neg (by decide)]
      have hsuffix : "](".toList <:+ init ++ ['('] ↔ [']'] <:+ init := by
        constructor
        · rintro ⟨before, hbefore⟩
          have hinit : before ++ [']'] ++ ['('] = init ++ ['('] := by
            rw [← hbefore, List.append_assoc]
            rfl
          exact ⟨before, (List.append_singleton_inj.mp hinit).1⟩
        · rintro ⟨before, rfl⟩
          exact ⟨before, by rw [List.append_assoc]; rfl⟩
      rw [hsuffix, ← hone]
      constructor
      · intro h
        split at h
        · rename_i hread
          exact hread.2
        · cases h
      · exact fun h => if_pos ⟨rfl, h⟩
    · refine iff_of_false ?_ fun ⟨before, hbefore⟩ => ?_
      · split
        · decide
        · rw [if_neg fun h => hc h.1]
          decide
      · have hlast : before ++ [']'] ++ ['('] = init ++ [c] := by
          rw [← hbefore, List.append_assoc]
          rfl
        exact hc (List.append_singleton_inj.mp hlast).2.symm

/-- The scan from the start of a text finds whether all its angle brackets open destinations. -/
theorem anglesOpen_iff (t : Text) : AnglesOpen t ↔ OpensFrom 0 t := by
  constructor
  · intro h
    induction t using List.reverseRecOn with
    | nil => trivial
    | append_singleton t c ih =>
      rw [opensFrom_append]
      refine ⟨ih fun before after hsplit => h before (after ++ [c]) (by rw [hsplit]; simp), ?_, trivial⟩
      rintro rfl
      exact (foldl_openingRead_eq_two t).mpr (h t [] rfl)
  · rintro h before after rfl
    exact (foldl_openingRead_eq_two before).mp (((opensFrom_append ..).mp h).2.1 rfl)

/-! ### Spaces put in or left out -/

theorem opensFrom_replicate_append {c : Char} (hc : isAside c = true) (n k : Nat) {t : Text}
    (h : OpensFrom (if n = 0 then k else 0) t) : OpensFrom k (List.replicate n c ++ t) := by
  induction n generalizing k with
  | zero => exact h
  | succ n ih =>
    rw [List.replicate_succ, List.cons_append, opensFrom_cons_of_isAside hc]
    refine ih 0 ?_
    rwa [ite_self]

/-- Spaces that are still held back have left nothing of `](` read. -/
theorem opensFrom_headingLineFrom (scan : HeadingScan) {k : Nat}
    (hscan : scan = .spaces 0 ∨ k = 0) {t : Text} (h : OpensFrom k t) :
    OpensFrom k (headingLineFrom scan t) := by
  have hspace : isAside ' ' = true := rfl
  have hfeed : isAside '\n' = true := rfl
  fun_induction headingLineFrom scan t generalizing k with
  | case1 n => exact opensFrom_of_no_angle (fun hmem => by cases List.eq_of_mem_replicate hmem) k
  | case2 => trivial
  | case3 cs n ih =>
    exact (ih (.inr rfl) ((opensFrom_cons_of_isAside hspace k cs).mp h)).anywhere k
  | case4 scan cs _ ih =>
    exact (ih (.inr rfl) ((opensFrom_cons_of_isAside hspace k cs).mp h)).anywhere k
  | case5 cs _ ih =>
    exact (ih (.inr rfl) ((opensFrom_cons_of_isAside hfeed k cs).mp h)).anywhere k
  | case6 scan cs _ _ ih =>
    rw [opensFrom_cons_of_isAside hspace]
    exact ih (.inr rfl) ((opensFrom_cons_of_isAside hfeed k cs).mp h)
  | case7 c cs _ _ n ih =>
    refine opensFrom_replicate_append hspace n k ?_
    have hcount : (if n = 0 then k else 0) = k := by
      split
      · rfl
      · rename_i hn
        exact (hscan.resolve_left fun heq => hn (HeadingScan.spaces.inj heq)).symm
    rw [hcount]
    exact ⟨h.1, ih (.inl rfl) h.2⟩
  | case8 c scan cs _ _ _ ih => exact ⟨h.1, ih (.inl rfl) h.2⟩

/-- Further lines of a text may start with spaces. -/
theorem opensFrom_indented (width : Nat) {k : Nat} {t : Text} (h : OpensFrom k t) :
    OpensFrom k (t.flatMap fun c => if c = '\n' then '\n' :: List.replicate width ' ' else [c]) := by
  induction t generalizing k with
  | nil => exact h
  | cons c t ih =>
    rw [List.flatMap_cons]
    split
    · rename_i hc
      rw [hc, opensFrom_cons_of_isAside (by rfl)] at h
      rw [List.cons_append, opensFrom_cons_of_isAside (by rfl)]
      refine opensFrom_replicate_append (by rfl) width 0 ?_
      rw [ite_self]
      exact ih h
    · exact ⟨h.1, ih h.2⟩

/-- Escaping bars puts nothing between the characters of `](<`. -/
theorem opensFrom_of_guarded {s t : Text} (h : Guarded s t) {k : Nat} (hs : OpensFrom k s) :
    OpensFrom k t := by
  induction h generalizing k with
  | nil => exact hs
  | keep c h ih => exact ⟨hs.1, ih hs.2⟩
  | guard h ih =>
    rw [opensFrom_cons_of_isAside (by rfl)] at hs
    rw [opensFrom_cons_of_isAside (by rfl), opensFrom_cons_of_isAside (by rfl)]
    exact ih hs

/-! ## Cutting and joining -/

theorem anglesOpen_of_no_angle {t : Text} (h : '<' ∉ t) : AnglesOpen t :=
  (anglesOpen_iff t).mpr (opensFrom_of_no_angle h 0)

namespace AnglesOpen

variable {s t : Text}

theorem append (hs : AnglesOpen s) (ht : AnglesOpen t) : AnglesOpen (s ++ t) := by
  rw [anglesOpen_iff] at hs ht ⊢
  exact (opensFrom_append ..).mpr ⟨hs, ht.anywhere _⟩

theorem of_prefix (ht : AnglesOpen t) (h : s <+: t) : AnglesOpen s := by
  obtain ⟨u, rfl⟩ := h
  rw [anglesOpen_iff] at ht ⊢
  exact ((opensFrom_append ..).mp ht).1

theorem flatten {ts : List Text} (h : ∀ t ∈ ts, AnglesOpen t) : AnglesOpen ts.flatten := by
  induction ts with
  | nil => exact anglesOpen_of_no_angle List.not_mem_nil
  | cons t ts ih =>
    rw [List.forall_mem_cons] at h
    exact h.1.append (ih h.2)

theorem intercalate {sep : Text} (hsep : '<' ∉ sep) {ts : List Text} (h : ∀ t ∈ ts, AnglesOpen t) :
    AnglesOpen (sep.intercalate ts) := by
  induction ts with
  | nil => exact anglesOpen_of_no_angle List.not_mem_nil
  | cons t ts ih =>
    rw [List.forall_mem_cons] at h
    cases ts with
    | nil =>
      rw [List.intercalate_singleton]
      exact h.1
    | cons u ts =>
      rw [List.intercalate_cons_cons]
      exact (h.1.append (anglesOpen_of_no_angle hsep)).append (ih h.2)

theorem unlines {ls : List Text} (h : ∀ l ∈ ls, AnglesOpen l) : AnglesOpen (unlines ls) :=
  intercalate (by decide) h

theorem joinBlocks {ts : List Text} (h : ∀ t ∈ ts, AnglesOpen t) : AnglesOpen (joinBlocks ts) :=
  intercalate (by decide) h

theorem dropWhile {p : Char → Bool} (hp : ∀ c, p c = true → isAside c = true) (h : AnglesOpen t) :
    AnglesOpen (t.dropWhile p) := by
  rw [anglesOpen_iff] at h ⊢
  induction t with
  | nil => exact h
  | cons c t ih =>
    by_cases hc : p c = true
    · rw [List.dropWhile_cons_of_pos hc]
      exact ih ((opensFrom_cons_of_isAside (hp c hc) 0 t).mp h)
    · rwa [List.dropWhile_cons_of_neg hc]

theorem dropEndWhile (p : Char → Bool) (h : AnglesOpen t) : AnglesOpen (dropEndWhile p t) :=
  h.of_prefix (List.rdropWhile_prefix p t)

theorem trim (h : AnglesOpen t) : AnglesOpen (trim t) :=
  (h.dropWhile fun _ => isAside_of_isBlank).dropEndWhile isBlank

theorem lines (h : AnglesOpen t) : ∀ l ∈ lines t, AnglesOpen l := by
  suffices hall : ∀ (t : Text) k, OpensFrom k t →
      ∃ l ls, Text.lines t = l :: ls ∧ OpensFrom k l ∧ ∀ m ∈ ls, OpensFrom 0 m by
    obtain ⟨l, ls, hlines, hl, hls⟩ := hall t 0 ((anglesOpen_iff t).mp h)
    rw [hlines, List.forall_mem_cons]
    exact ⟨(anglesOpen_iff l).mpr hl, fun m hm => (anglesOpen_iff m).mpr (hls m hm)⟩
  intro t
  induction t with
  | nil => exact fun k _ => ⟨[], [], rfl, trivial, List.forall_mem_nil _⟩
  | cons c t ih =>
    intro k hk
    by_cases hc : c = '\n'
    · subst hc
      obtain ⟨l, ls, hlines, hl, hls⟩ := ih 0 ((opensFrom_cons_of_isAside (by rfl) k t).mp hk)
      refine ⟨[], l :: ls, ?_, trivial, List.forall_mem_cons.mpr ⟨hl, hls⟩⟩
      rw [lines_feed, hlines]
    · obtain ⟨l, ls, hlines, hl, hls⟩ := ih _ hk.2
      exact ⟨c :: l, ls, by rw [lines_cons hc, hlines]; rfl, ⟨hk.1, hl⟩, hls⟩

theorem unifyBreaks (h : AnglesOpen t) : AnglesOpen (unifyBreaks t) := by
  rw [anglesOpen_iff] at h ⊢
  revert h
  generalize 0 = k
  fun_induction Text.unifyBreaks t generalizing k with
  | case1 => exact id
  | case2 t ih =>
    rw [opensFrom_cons_of_isAside (by rfl), opensFrom_cons_of_isAside (by rfl),
      opensFrom_cons_of_isAside (by rfl)]
    exact ih 0
  | case3 t _ ih =>
    rw [opensFrom_cons_of_isAside (by rfl), opensFrom_cons_of_isAside (by rfl)]
    exact ih 0
  | case4 c t _ _ ih => exact fun h => ⟨h.1, ih _ h.2⟩

/-! ## Blocks -/

theorem heading (level : Nat) (h : AnglesOpen t) : AnglesOpen (heading level t) := by
  have hline : AnglesOpen (headingLine t) :=
    (anglesOpen_iff _).mpr (opensFrom_headingLineFrom _ (.inl rfl) ((anglesOpen_iff t).mp h))
  have hmark : AnglesOpen (List.replicate level '#') :=
    anglesOpen_of_no_angle fun hmem => by cases List.eq_of_mem_replicate hmem
  rw [Markdown.heading]
  split
  · exact anglesOpen_of_no_angle List.not_mem_nil
  · have hspace : AnglesOpen [' '] := anglesOpen_of_no_angle (by decide)
    exact hmark.append (hspace.append hline)

theorem quote (h : AnglesOpen t) : AnglesOpen (quote t) := by
  rw [Markdown.quote]
  split
  · exact anglesOpen_of_no_angle List.not_mem_nil
  · refine unlines (List.forall_mem_map.mpr fun l hl => ?_)
    rw [quoteLine]
    split
    · exact anglesOpen_of_no_angle (by decide)
    · have hmark : AnglesOpen "> ".toList := anglesOpen_of_no_angle (by decide)
      exact hmark.append (h.lines l hl)

theorem markerLine {marker : Text} (hmarker : '<' ∉ marker) (h : AnglesOpen t) :
    AnglesOpen (markerLine marker t) := by
  have hopen : AnglesOpen marker := anglesOpen_of_no_angle hmarker
  rw [Markdown.markerLine]
  split
  · exact hopen.dropEndWhile isBlank
  · refine hopen.append ?_
    rw [anglesOpen_iff] at h ⊢
    exact opensFrom_indented marker.length h

theorem segmentLines (depth : Nat) (kind : SegmentKind) (h : AnglesOpen t) :
    ∀ l ∈ segmentLines depth kind t, AnglesOpen l := by
  have hindent : ∀ l ∈ Text.lines t, AnglesOpen (indentLine depth l) := by
    intro l hl
    rw [indentLine]
    split
    · exact anglesOpen_of_no_angle List.not_mem_nil
    · have hspaces : AnglesOpen (indent (depth + 1)) :=
        anglesOpen_of_no_angle fun hmem => by cases List.eq_of_mem_replicate hmem
      exact hspaces.append (h.lines l hl)
  intro l hl
  cases kind with
  | nestedList =>
    simp only [Markdown.segmentLines] at hl
    split at hl
    · cases hl
    · exact h.lines l hl
  | inline =>
    simp only [Markdown.segmentLines] at hl
    split at hl
    · cases hl
    · exact List.forall_mem_map.mpr hindent l hl
  | block =>
    simp only [Markdown.segmentLines] at hl
    split at hl
    · cases hl
    · exact List.forall_mem_map.mpr hindent l hl

theorem addSegments (depth : Nat) {above : List Text} (habove : ∀ l ∈ above, AnglesOpen l)
    (previous : Option SegmentKind) {below : List (SegmentKind × Text)}
    (hbelow : ∀ s ∈ below, AnglesOpen s.2) :
    ∀ l ∈ addSegments depth above previous below, AnglesOpen l := by
  induction below generalizing above previous with
  | nil => exact habove
  | cons s below ih =>
    rw [List.forall_mem_cons] at hbelow
    have hlines := hbelow.1.segmentLines depth s.1
    rw [Markdown.addSegments]
    split
    · exact ih habove _ hbelow.2
    · rename_i hsegment
      refine ih ?_ _ hbelow.2
      rw [List.forall_mem_append, List.forall_mem_append]
      refine ⟨⟨habove, fun l hl => ?_⟩, hlines⟩
      split at hl
      · rw [List.mem_singleton.mp hl]
        exact anglesOpen_of_no_angle List.not_mem_nil
      · cases hl

theorem itemText (depth : Nat) {marker : Text} (hmarker : '<' ∉ marker) (h : AnglesOpen t)
    {below : List (SegmentKind × Text)} (hbelow : ∀ s ∈ below, AnglesOpen s.2) :
    AnglesOpen (itemText depth marker t below) :=
  unlines (addSegments depth ((List.forall_mem_singleton ..).mpr (h.markerLine hmarker)) none hbelow)

theorem normalize (most : Int) (h : AnglesOpen t) : AnglesOpen (normalize most t) := by
  have htrimmed : ∀ l ∈ (Text.lines (Text.unifyBreaks t)).map trimLine, AnglesOpen l :=
    List.forall_mem_map.mpr fun l hl => (h.unifyBreaks.lines l hl).dropEndWhile _
  have hsqueezed := unlines fun l hl =>
    (unlines htrimmed).lines l ((squeezeFrom_sublist most none 0 _).subset hl)
  exact (hsqueezed.dropWhile fun c hc => by rw [beq_iff_eq.mp hc]; rfl).dropEndWhile isLineFeed

/-! ## Definition lists -/

theorem definitionEntry {term : Text} {meanings : List Text} (hterm : meanings ≠ [] → AnglesOpen term)
    (hmeanings : ∀ m ∈ meanings, AnglesOpen m) : ∀ e ∈ definitionEntry term meanings, AnglesOpen e := by
  intro e he
  rw [Markdown.definitionEntry] at he
  split at he
  · cases he
  · rename_i hne
    rw [List.mem_singleton.mp he]
    refine unlines (List.forall_mem_cons.mpr ⟨hterm ?_, List.forall_mem_map.mpr fun m hm => ?_⟩)
    · exact fun hnil => hne (by rw [hnil]; rfl)
    · have hmark : AnglesOpen ": ".toList := anglesOpen_of_no_angle (by decide)
      exact hmark.append (hmeanings m hm)

theorem definitionEntries {ds : List Definition} (h : ∀ t ∈ entryLines ds, AnglesOpen t) {term : Text}
    {meanings : List Text} (hterm : meanings ≠ [] ∨ startsWithMeaning ds = true → AnglesOpen term)
    (hmeanings : ∀ m ∈ meanings, AnglesOpen m) :
    ∀ e ∈ definitionEntries term meanings ds, AnglesOpen e := by
  induction ds generalizing term meanings with
  | nil => exact definitionEntry (fun hne => hterm (.inl hne)) hmeanings
  | cons d ds ih =>
    cases d with
    | term t =>
      rw [entryLines, List.forall_mem_append] at h
      rw [Markdown.definitionEntries, List.forall_mem_append]
      refine ⟨definitionEntry (fun hne => hterm (.inl hne)) hmeanings,
        ih h.2 (fun hnext => h.1 t ?_) (List.forall_mem_nil _)⟩
      rw [if_pos (hnext.resolve_left (· rfl))]
      exact List.mem_cons_self ..
    | meaning m =>
      rw [entryLines, List.forall_mem_cons] at h
      refine ih h.2 (fun _ => hterm (.inr rfl)) ?_
      rw [List.forall_mem_append, List.forall_mem_singleton]
      exact ⟨hmeanings, h.1⟩

theorem definitionList {ds : List Definition} (h : ∀ t ∈ entryLines ds, AnglesOpen t) :
    AnglesOpen (definitionList ds) := by
  induction ds with
  | nil => exact anglesOpen_of_no_angle List.not_mem_nil
  | cons d ds ih =>
    cases d with
    | term t =>
      rw [entryLines, List.forall_mem_append] at h
      rw [Markdown.definitionList]
      refine joinBlocks (definitionEntries h.2 (fun hnext => h.1 t ?_) (List.forall_mem_nil _))
      rw [if_pos (hnext.resolve_left (· rfl))]
      exact List.mem_cons_self ..
    | meaning m => exact ih (List.forall_mem_cons.mp h).2

/-! ## Tables -/

theorem escapeCellLine (h : AnglesOpen t) : AnglesOpen (escapeCellLine t) := by
  refine trim ((anglesOpen_iff _).mpr ?_)
  exact opensFrom_of_guarded (guarded_escapePipesFrom 0 0 t) ((anglesOpen_iff t).mp h)

open Table

theorem holdsOfLines (h : AnglesOpen t) : HoldsOfLines AnglesOpen t := by
  refine ⟨fun l hl => ?_, h.escapeCellLine.unifyBreaks.lines⟩
  rcases mem_cellLines hl with rfl | ⟨line, hline, rfl⟩
  · exact anglesOpen_of_no_angle List.not_mem_nil
  · exact (h.unifyBreaks.lines line hline).escapeCellLine

theorem keptByPadding : KeptByPadding AnglesOpen where
  nil := anglesOpen_of_no_angle List.not_mem_nil
  pad t n h := h.append <| anglesOpen_of_no_angle fun hmem => by cases List.eq_of_mem_replicate hmem

theorem tableLine {segments : List Text} (h : ∀ s ∈ segments, AnglesOpen s) :
    AnglesOpen (tableLine segments) := by
  have hopen : AnglesOpen "| ".toList := anglesOpen_of_no_angle (by decide)
  have hclose : AnglesOpen " |".toList := anglesOpen_of_no_angle (by decide)
  exact (hopen.append (intercalate (by decide) h)).append hclose

theorem dashLine (groups : List Nat) : AnglesOpen (dashLine groups) := by
  have hbar : AnglesOpen ['|'] := anglesOpen_of_no_angle (by decide)
  refine (hbar.append (intercalate (by decide) ?_)).append hbar
  exact List.forall_mem_map.mpr fun n _ => anglesOpen_of_no_angle fun hmem => by
    cases List.eq_of_mem_replicate hmem

theorem sheet {s : Sheet} (h : s.All AnglesOpen) : ∀ l ∈ s.lines, AnglesOpen l := by
  rw [Sheet.lines, List.forall_mem_append, List.forall_mem_map, List.forall_mem_cons,
    List.forall_mem_flatMap]
  exact ⟨fun line hline => tableLine (h.head line hline), dashLine s.dashes, fun group hgroup =>
    List.forall_mem_map.mpr fun line hline => tableLine (h.body group hgroup line hline)⟩

/-- A table whose caption and cells are such texts. -/
theorem captioned {rows : List (Row Cell)} (hne : rows ≠ []) {title table : Text}
    (hlines : Text.lines table = (arrangement rows).sheet.lines) (htitle : AnglesOpen title)
    (hcells : ∀ row ∈ rows, ∀ c ∈ row.cells, AnglesOpen c.value) :
    AnglesOpen (captioned title table) := by
  obtain ⟨hheader, hothers⟩ := forall_values hne (anglesOpen_of_no_angle List.not_mem_nil) hcells
  have hsheet := (arrangement rows).all_sheet keptByPadding
    (fun v hv => (hheader v hv).holdsOfLines) fun r hr v hv => (hothers r hr v hv).holdsOfLines
  have htable : AnglesOpen table := by
    rw [← unlines_lines table, hlines]
    exact unlines (sheet hsheet)
  rw [Table.captioned]
  split
  · exact htable
  · refine joinBlocks (List.forall_mem_cons.mpr ⟨htitle, ?_⟩)
    exact (List.forall_mem_singleton ..).mpr htable

end AnglesOpen

end Text

end Hypermark
