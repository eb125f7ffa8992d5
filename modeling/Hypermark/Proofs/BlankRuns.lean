import Mathlib.Data.List.Chain
import Mathlib.Data.List.DropRight
import Hypermark.Proofs.Trim
import Hypermark.Proofs.Word

/-!
# Runs of blank lines

Squeezing reads the lines once and decides at each blank line, by the fence that it takes to be
open, whether the run counts.  Here every line carries a mark that says whether it is code, and the
question is when squeezing does what the marks ask for: leave out blank lines outside of code only,
and enough of them.

* `squeezeFrom_blanks`, `squeezeFrom_cons`: a run is kept whole or cut short, the next line follows.
* `scanAgrees_append_cons`: agreement is agreement on each run.
* `exists_thinned_iff`: the result is right exactly where the scanner is right on the long runs.
-/

namespace Hypermark.Markdown

open Text

/-! ## Marked lines -/

/-- A line of a document with the mark of being code. -/
structure Line where
  text : Text
  isCode : Bool
deriving DecidableEq, Repr

namespace Line

def isBlank (l : Line) : Bool := allBlank l.text

/-- A blank line outside of code. -/
def isGap (l : Line) : Bool := !l.isCode && l.isBlank

end Line

/-- The second list is the first one without some blank lines outside of code. -/
inductive Thinned : List Line → List Line → Prop
  | nil : Thinned [] []
  | keep {l : Line} {ls ks : List Line} : Thinned ls ks → Thinned (l :: ls) (l :: ks)
  | leave {l : Line} {ls ks : List Line} : l.isGap = true → Thinned ls ks → Thinned (l :: ls) ks

/-- Outside of code at most `most` blank lines follow each other. -/
def GapsWithin (most : Nat) (ls : List Line) : Prop :=
  ∀ run, run <:+: ls → (∀ l ∈ run, l.isGap = true) → run.length ≤ most

/-- The fence that is open after some lines. -/
def Fence.afterAll (fence : Option Fence) (ls : List Text) : Option Fence :=
  ls.foldl Fence.after fence

/-- Wherever more than `most` blank lines follow each other, the lines before them leave a fence
open exactly if they are code. -/
def ScanAgrees (most : Nat) (fence : Option Fence) (ls : List Line) : Prop :=
  ∀ before run after, ls = before ++ run ++ after → most < run.length →
    (∀ l ∈ run, l.isBlank = true) →
      ∀ l ∈ run, l.isCode = (Fence.afterAll fence (before.map Line.text)).isSome

/-- Two blank lines that follow each other are both code or both not. -/
def Uniform (ls : List Line) : Prop :=
  ls.IsChain fun a b => a.isBlank = true → b.isBlank = true → a.isCode = b.isCode

/-! ## The scanner -/

namespace Fence

theorem after_of_allBlank {t : Text} (h : allBlank t = true) (fence : Option Fence) :
    after fence t = fence := by
  cases fence with
  | none =>
    have hstart : trimStart t = [] := (dropWhile_eq_nil_iff isBlank t).mpr h
    rw [after, opening?, hstart]
  | some f =>
    have hopen : f.closedBy t = false := by
      rw [closedBy, (trim_eq_nil_iff t).mpr h]
      rfl
    rw [after, hopen]
    rfl

theorem afterAll_of_allBlank {ls : List Text} (h : ∀ l ∈ ls, allBlank l = true)
    (fence : Option Fence) : afterAll fence ls = fence := by
  induction ls with
  | nil => rfl
  | cons l ls ih =>
    rw [List.forall_mem_cons] at h
    rw [afterAll, List.foldl_cons, after_of_allBlank h.1]
    exact ih h.2

theorem afterAll_of_blank {ls : List Line} (h : ∀ l ∈ ls, l.isBlank = true) (fence : Option Fence) :
    afterAll fence (ls.map Line.text) = fence :=
  afterAll_of_allBlank (List.forall_mem_map.mpr h) fence

theorem afterAll_append (fence : Option Fence) (xs ys : List Text) :
    afterAll fence (xs ++ ys) = afterAll (afterAll fence xs) ys := List.foldl_append

theorem afterAll_blanks_cons {blanks : List Line} (h : ∀ b ∈ blanks, b.isBlank = true)
    (fence : Option Fence) (l : Line) (rest : List Line) :
    afterAll fence ((blanks ++ l :: rest).map Line.text) =
      afterAll (after fence l.text) (rest.map Line.text) := by
  rw [List.map_append, afterAll_append, afterAll_of_blank h]
  rfl

end Fence

/-! ## Squeezing by runs -/

section Squeeze

variable (most : Nat) (fence : Option Fence) (count : Nat)

theorem squeezeFrom_cons {l : Text} (h : allBlank l = false) (rest : List Text) :
    squeezeFrom most fence count (l :: rest) =
      l :: squeezeFrom most (Fence.after fence l) 0 rest := by
  simp only [squeezeFrom, h, Bool.not_false, if_true]
  split
  · rfl
  · rename_i hnone
    rw [Bool.or_eq_true, not_or, Bool.not_eq_true, Bool.not_eq_true, Option.isSome_eq_false_iff,
      Option.isSome_eq_false_iff, Option.isNone_iff_eq_none, Option.isNone_iff_eq_none] at hnone
    rw [hnone.2]

theorem squeezeFrom_open {f : Fence} {blanks : List Text} (h : ∀ b ∈ blanks, allBlank b = true)
    (rest : List Text) :
    ∃ count', squeezeFrom most (some f) count (blanks ++ rest) =
      blanks ++ squeezeFrom most (some f) count' rest := by
  induction blanks generalizing count with
  | nil => exact ⟨count, rfl⟩
  | cons b blanks ih =>
    rw [List.forall_mem_cons] at h
    obtain ⟨count', hrest⟩ := ih 0 h.2
    refine ⟨count', ?_⟩
    rw [List.cons_append, squeezeFrom, Fence.after_of_allBlank h.1]
    exact congrArg (b :: ·) hrest

theorem squeezeFrom_closed {blanks : List Text} (h : ∀ b ∈ blanks, allBlank b = true)
    (rest : List Text) :
    ∃ count', squeezeFrom most none count (blanks ++ rest) =
      blanks.take (most - count) ++ squeezeFrom most none count' rest := by
  induction blanks generalizing count with
  | nil => exact ⟨count, by rw [List.take_nil]; rfl⟩
  | cons b blanks ih =>
    rw [List.forall_mem_cons] at h
    obtain ⟨count', hrest⟩ := ih (count + 1) h.2
    refine ⟨count', ?_⟩
    rw [List.cons_append, squeezeFrom, Fence.after_of_allBlank h.1, h.1]
    by_cases hcount : count + 1 ≤ most
    · have hmost : most - count = (most - (count + 1)) + 1 := by omega
      have hle : ((count + 1 : Nat) : Int) ≤ most := by omega
      simp only [Option.isSome_none, Bool.or_false, Bool.false_eq_true, if_false, Bool.not_true,
        if_pos hle, hrest, hmost, List.take_succ_cons, List.cons_append]
    · have hmost : most - count = 0 := by omega
      have hmost' : most - (count + 1) = 0 := by omega
      have hle : ¬((count + 1 : Nat) : Int) ≤ most := by omega
      simp only [Option.isSome_none, Bool.or_false, Bool.false_eq_true, if_false, Bool.not_true,
        if_neg hle, hrest, hmost, hmost', List.take_zero, List.nil_append]

/-- What squeezing leaves of a run of blank lines. -/
def keptOf {α : Type} (most : Nat) (fence : Option Fence) (blanks : List α) : List α :=
  if fence.isSome then blanks else blanks.take most

theorem keptOf_map {α β : Type} (g : α → β) (xs : List α) :
    keptOf most fence (xs.map g) = (keptOf most fence xs).map g := by
  rw [keptOf, keptOf]
  split
  · rfl
  · exact List.map_take.symm

theorem squeezeFrom_blanks {blanks : List Text} (h : ∀ b ∈ blanks, allBlank b = true)
    (rest : List Text) :
    ∃ count', squeezeFrom most fence 0 (blanks ++ rest) =
      keptOf most fence blanks ++ squeezeFrom most fence count' rest := by
  cases fence with
  | none => exact squeezeFrom_closed most 0 h rest
  | some f => exact squeezeFrom_open most 0 h rest

end Squeeze

/-! ## Leaving out gaps -/

section Thinned

variable {ls ks : List Line} {l : Line} {most : Nat}

theorem thinned_self (ls : List Line) : Thinned ls ls := by
  induction ls with
  | nil => exact .nil
  | cons l ls ih => exact .keep ih

theorem thinned_of_sublist (hsub : ks.Sublist ls) (h : ∀ l ∈ ls, l.isGap = true) :
    Thinned ls ks := by
  induction hsub with
  | slnil => exact .nil
  | cons l hsub ih => exact .leave (h l (List.mem_cons_self ..)) (ih fun k hk => h k (.tail _ hk))
  | cons_cons l hsub ih => exact .keep (ih fun k hk => h k (.tail _ hk))

theorem Thinned.sublist (h : Thinned ls ks) : ks.Sublist ls := by
  induction h with
  | nil => exact List.Sublist.refl _
  | keep _ ih => exact ih.cons_cons _
  | leave _ _ ih => exact ih.cons _

theorem Thinned.eq_of_no_gap (h : Thinned ls ks) (hgap : ∀ l ∈ ls, l.isGap = false) : ks = ls := by
  induction h with
  | nil => rfl
  | keep _ ih => rw [ih fun l hl => hgap l (.tail _ hl)]
  | leave hl _ _ =>
    rw [hgap _ (List.mem_cons_self ..)] at hl
    cases hl

theorem thinned_append {ms : List Line} : Thinned (ls ++ ms) ks ↔
    ∃ above below, ks = above ++ below ∧ Thinned ls above ∧ Thinned ms below := by
  constructor
  · intro h
    induction ls generalizing ks with
    | nil => exact ⟨[], ks, rfl, .nil, h⟩
    | cons l ls ih =>
      rw [List.cons_append] at h
      cases h with
      | keep h =>
        obtain ⟨above, below, rfl, habove, hbelow⟩ := ih h
        exact ⟨l :: above, below, rfl, .keep habove, hbelow⟩
      | leave hgap h =>
        obtain ⟨above, below, rfl, habove, hbelow⟩ := ih h
        exact ⟨above, below, rfl, .leave hgap habove, hbelow⟩
  · rintro ⟨above, below, rfl, habove, hbelow⟩
    induction habove with
    | nil => exact hbelow
    | keep _ ih => exact .keep ih
    | leave hgap _ ih => exact .leave hgap ih

theorem thinned_cons (hl : l.isGap = false) {rest : List Line} :
    Thinned (l :: rest) ks ↔ ∃ below, ks = l :: below ∧ Thinned rest below := by
  constructor
  · intro h
    cases h with
    | keep h => exact ⟨_, rfl, h⟩
    | leave hgap _ =>
      rw [hl] at hgap
      cases hgap
  · rintro ⟨below, rfl, h⟩
    exact .keep h

/-- The lines of a piece without gaps stay together. -/
theorem Thinned.isInfix {piece : List Line} (h : Thinned ls ks) (hp : piece <:+: ls)
    (hgap : ∀ l ∈ piece, l.isGap = false) : piece <:+: ks := by
  obtain ⟨before, after, rfl⟩ := hp
  obtain ⟨above, below, rfl, habove, _⟩ := thinned_append.mp h
  obtain ⟨before', piece', rfl, _, hpiece⟩ := thinned_append.mp habove
  rw [hpiece.eq_of_no_gap hgap]
  exact ⟨before', below, rfl⟩

theorem gapsWithin_of_length_le (h : ls.length ≤ most) : GapsWithin most ls :=
  fun _ hrun _ => hrun.length_le.trans h

theorem gapsWithin_append_cons (hl : l.isGap = false) {rest : List Line} :
    GapsWithin most (ls ++ l :: rest) ↔ GapsWithin most ls ∧ GapsWithin most rest := by
  constructor
  · intro h
    refine ⟨fun run hrun => h run (hrun.trans ?_), fun run hrun => h run (hrun.trans ?_)⟩
    · exact (List.prefix_append _ _).isInfix
    · exact ((List.suffix_cons l rest).trans (List.suffix_append _ _)).isInfix
  · rintro ⟨habove, hbelow⟩ run hrun hgap
    have hmem : l ∉ run := by
      intro hmem
      rw [hgap l hmem] at hl
      cases hl
    rcases infix_append_cons hmem hrun with hrun | hrun
    · exact habove run hrun hgap
    · exact hbelow run hrun hgap

end Thinned

/-! ## Agreement by runs -/

section Runs

variable {most : Nat} {fence : Option Fence} {blanks : List Line}
  (hblank : ∀ b ∈ blanks, b.isBlank = true)
include hblank

theorem scanAgrees_blanks : ScanAgrees most fence blanks ↔
    (blanks.length ≤ most ∨ ∀ b ∈ blanks, b.isCode = fence.isSome) := by
  constructor
  · intro h
    rcases Nat.lt_or_ge most blanks.length with hlong | hshort
    · exact .inr (h [] blanks [] (by simp) hlong hblank)
    · exact .inl hshort
  · rintro h before run after rfl hlong _ b hb
    have hbefore : ∀ b ∈ before, b.isBlank = true := fun b hb =>
      hblank b (List.mem_append_left _ (List.mem_append_left _ hb))
    rw [Fence.afterAll_of_blank hbefore]
    refine h.resolve_left (fun hshort => ?_) b (List.mem_append_left _ (List.mem_append_right _ hb))
    rw [List.length_append, List.length_append] at hshort
    omega

theorem scanAgrees_append_cons {l : Line} (hl : l.isBlank = false) {rest : List Line} :
    ScanAgrees most fence (blanks ++ l :: rest) ↔
      ScanAgrees most fence blanks ∧ ScanAgrees most (Fence.after fence l.text) rest := by
  constructor
  · intro h
    refine ⟨fun before run after hsplit => ?_, fun before run after hsplit hlong hrun => ?_⟩
    · exact h before run (after ++ l :: rest) (by rw [hsplit]; simp)
    · rw [← Fence.afterAll_blanks_cons hblank fence l before]
      exact h (blanks ++ l :: before) run after (by rw [hsplit]; simp) hlong hrun
  · rintro ⟨hblanks, hrest⟩ before run after hsplit hlong hrun
    have hmem : l ∉ run := by
      intro hmem
      rw [hrun l hmem] at hl
      cases hl
    rcases append_cons_cases hmem hsplit.symm with ⟨s, hs⟩ | ⟨s, rfl, hs⟩
    · exact hblanks before run s hs hlong hrun
    · rw [Fence.afterAll_blanks_cons hblank fence l s]
      exact hrest s run after hs hlong hrun

end Runs

/-! ## Right results -/

theorem isGap_of_blank {l : Line} (h : l.isBlank = true) : l.isGap = !l.isCode := by
  rw [Line.isGap, h, Bool.and_true]

theorem uniform_blanks {blanks : List Line} (hblank : ∀ b ∈ blanks, b.isBlank = true)
    (h : Uniform blanks) : ∃ c, ∀ b ∈ blanks, b.isCode = c := by
  induction blanks with
  | nil => exact ⟨false, by simp⟩
  | cons b blanks ih =>
    rw [List.forall_mem_cons] at hblank
    cases blanks with
    | nil => exact ⟨b.isCode, by simp⟩
    | cons d blanks =>
      rw [Uniform, List.isChain_cons_cons] at h
      obtain ⟨c, hc⟩ := ih hblank.2 h.2
      have hbd := h.1 hblank.1 (hblank.2 d (List.mem_cons_self ..))
      exact ⟨c, List.forall_mem_cons.mpr ⟨hbd.trans (hc d (List.mem_cons_self ..)), hc⟩⟩

/-- The lines can be thinned to what squeezing leaves of them. -/
def Shows (most : Nat) (ls : List Line) (shown : List Text) : Prop :=
  ∃ ks, Thinned ls ks ∧ GapsWithin most ks ∧ ks.map Line.text = shown

section Runs

variable {most : Nat} {fence : Option Fence} {blanks : List Line}
  (hblank : ∀ b ∈ blanks, b.isBlank = true)
include hblank

theorem shows_keptOf_iff {c : Bool} (hc : ∀ b ∈ blanks, b.isCode = c) :
    Shows most blanks ((keptOf most fence blanks).map Line.text) ↔ ScanAgrees most fence blanks := by
  rw [scanAgrees_blanks hblank]
  rcases Nat.lt_or_ge most blanks.length with hlong | hshort
  · rw [or_iff_right (by omega)]
    have hgap : ∀ b ∈ blanks, b.isGap = !c := fun b hb => by
      rw [isGap_of_blank (hblank b hb), hc b hb]
    obtain ⟨b, hb⟩ := List.exists_mem_of_length_pos (Nat.zero_lt_of_lt hlong)
    cases fence with
    | none =>
      cases c with
      | true =>
        refine iff_of_false ?_ fun h => ?_
        · rintro ⟨ks, hks, _, htext⟩
          rw [hks.eq_of_no_gap hgap] at htext
          have hlength := congrArg List.length htext
          simp only [keptOf, Option.isSome_none, Bool.false_eq_true, if_false, List.length_map,
            List.length_take] at hlength
          omega
        · have hcode := (hc b hb).symm.trans (h b hb)
          cases hcode
      | false =>
        refine iff_of_true ⟨blanks.take most, ?_, ?_, rfl⟩ hc
        · exact thinned_of_sublist (List.take_sublist _ _) hgap
        · exact gapsWithin_of_length_le (List.length_take_le ..)
    | some f =>
      cases c with
      | true =>
        refine iff_of_true ⟨blanks, thinned_self _, fun run hrun hall => ?_, rfl⟩ hc
        cases run with
        | nil => exact Nat.zero_le _
        | cons k run =>
          have hk := hall k (List.mem_cons_self ..)
          rw [hgap k (hrun.subset (List.mem_cons_self ..))] at hk
          cases hk
      | false =>
        refine iff_of_false ?_ fun h => ?_
        · rintro ⟨ks, hks, hwithin, htext⟩
          have hlength := congrArg List.length htext
          rw [List.length_map, List.length_map] at hlength
          -- A thinned run with as many lines as there were is the whole run.
          rw [hks.sublist.eq_of_length hlength] at hwithin
          have hle := hwithin blanks List.infix_rfl hgap
          omega
        · have hcode := (hc b hb).symm.trans (h b hb)
          cases hcode
  · refine iff_of_true ⟨blanks, thinned_self _, gapsWithin_of_length_le hshort, ?_⟩ (.inl hshort)
    rw [keptOf]
    split
    · rfl
    · rw [List.take_of_length_le hshort]

theorem blank_of_mem_keptOf : ∀ b ∈ keptOf most fence blanks, b.isBlank = true := by
  rw [keptOf]
  split
  · exact hblank
  · exact fun b hb => hblank b (List.mem_of_mem_take hb)

/-- At the end of a document empty lines are dropped, which takes nothing from a run that ends in
another line. -/
theorem shows_end_iff {c : Bool} (hc : ∀ b ∈ blanks, b.isCode = c)
    (hend : ∀ b, blanks.getLast? = some b → b.isCode = false ∧ b.text ≠ []) :
    Shows most blanks (((keptOf most fence blanks).map Line.text).rdropWhile List.isEmpty) ↔
      ScanAgrees most fence blanks := by
  rcases List.eq_nil_or_concat' blanks with rfl | ⟨init, b, rfl⟩
  · refine iff_of_true ⟨[], .nil, gapsWithin_of_length_le (Nat.zero_le _), ?_⟩ ?_
    · cases fence <;> simp [keptOf]
    · exact (scanAgrees_blanks hblank).mpr (.inr (by simp))
  · obtain ⟨hcode, htext⟩ := hend b (by simp)
    obtain rfl : c = false := (hc b (by simp)).symm.trans hcode
    by_cases hwhole : fence.isSome = true ∨ (init ++ [b]).length ≤ most
    · have hkept : keptOf most fence (init ++ [b]) = init ++ [b] := by
        rw [keptOf]
        split
        · rfl
        · rename_i hclosed
          exact List.take_of_length_le (hwhole.resolve_left hclosed)
      have hdrop : ((init ++ [b]).map Line.text).rdropWhile List.isEmpty =
          (init ++ [b]).map Line.text := by
        rw [List.map_append, List.map_singleton, List.rdropWhile_concat_neg _ _ _ (by simpa using htext)]
      have hiff : Shows most (init ++ [b]) ((keptOf most fence (init ++ [b])).map Line.text) ↔
          ScanAgrees most fence (init ++ [b]) := shows_keptOf_iff hblank hc
      rw [hkept] at hiff ⊢
      rw [hdrop]
      exact hiff
    · rw [not_or, Bool.not_eq_true, Option.isSome_eq_false_iff, Option.isNone_iff_eq_none] at hwhole
      have hgap : ∀ a ∈ init ++ [b], a.isGap = true := fun a ha => by
        rw [isGap_of_blank (hblank a ha), hc a ha]
        rfl
      rw [hwhole.1, scanAgrees_blanks hblank]
      have hsub : (((init ++ [b]).take most).rdropWhile fun l => l.text.isEmpty).Sublist
          ((init ++ [b]).take most) := (List.rdropWhile_prefix _ _).sublist
      refine iff_of_true ⟨_, thinned_of_sublist (hsub.trans (List.take_sublist _ _)) hgap,
        gapsWithin_of_length_le (hsub.length_le.trans (List.length_take_le ..)), ?_⟩ (.inr hc)
      rw [keptOf, Option.isSome_none, if_neg Bool.false_ne_true, List.rdropWhile, List.rdropWhile,
        ← List.map_reverse, List.dropWhile_map, List.map_reverse]
      rfl

end Runs

/-- Every list of lines is a run of blank ones or has one, a line with text and the rest. -/
theorem run_induction {P : List Line → Prop}
    (blanks : ∀ bs : List Line, (∀ b ∈ bs, b.isBlank = true) → P bs)
    (step : ∀ (bs : List Line) (l : Line) (rest : List Line), (∀ b ∈ bs, b.isBlank = true) →
      l.isBlank = false → P rest → P (bs ++ l :: rest)) (ls : List Line) : P ls := by
  have hgeneral : ∀ bs : List Line, (∀ b ∈ bs, b.isBlank = true) → P (bs ++ ls) := by
    induction ls with
    | nil =>
      intro bs hbs
      rw [List.append_nil]
      exact blanks bs hbs
    | cons l ls ih =>
      intro bs hbs
      cases hl : l.isBlank with
      | true =>
        rw [List.append_cons]
        exact ih (bs ++ [l]) (List.forall_mem_append.mpr ⟨hbs, by simpa using hl⟩)
      | false => exact step bs l ls hbs hl (ih [] (by simp))
  exact hgeneral [] (by simp)

theorem shows_append_cons {most : Nat} {ls rest kept : List Line} {l : Line} {shown : List Text}
    (hblank : ∀ k ∈ ls, k.isBlank = true) (hl : l.isBlank = false) (hkept : ∀ k ∈ kept, k.isBlank = true) :
    Shows most (ls ++ l :: rest) (kept.map Line.text ++ l.text :: shown) ↔
      Shows most ls (kept.map Line.text) ∧ Shows most rest shown := by
  have hgap : l.isGap = false := by
    rw [Line.isGap, hl, Bool.and_false]
  constructor
  · rintro ⟨ks, hks, hwithin, htext⟩
    obtain ⟨above, ks, rfl, habove, hks⟩ := thinned_append.mp hks
    obtain ⟨below, rfl, hbelow⟩ := (thinned_cons hgap).mp hks
    rw [gapsWithin_append_cons hgap] at hwithin
    have hnot : ∀ ms : List Line, (∀ m ∈ ms, m.isBlank = true) → l.text ∉ ms.map Line.text := by
      intro ms hms hmem
      obtain ⟨m, hm, hml⟩ := List.mem_map.mp hmem
      have hm' := hms m hm
      rw [Line.isBlank, hml] at hm'
      rw [Line.isBlank, hm'] at hl
      cases hl
    rw [List.map_append, List.map_cons] at htext
    obtain ⟨habovetext, hbelowtext⟩ := append_cons_inj
      (hnot above fun a ha => hblank a (habove.sublist.subset ha)) (hnot kept hkept) htext
    exact ⟨⟨above, habove, hwithin.1, habovetext⟩, ⟨below, hbelow, hwithin.2, hbelowtext⟩⟩
  · rintro ⟨⟨above, habove, hwithin, htext⟩, ⟨below, hbelow, hwithin', htext'⟩⟩
    refine ⟨above ++ l :: below, ?_, (gapsWithin_append_cons hgap).mpr ⟨hwithin, hwithin'⟩, ?_⟩
    · exact thinned_append.mpr ⟨above, _, rfl, habove, (thinned_cons hgap).mpr ⟨below, rfl, hbelow⟩⟩
    · rw [List.map_append, List.map_cons, htext, htext']

/-- Squeezing leaves what it should of the lines exactly if the scanner is right on every long run
of blank ones. -/
theorem shows_squeeze_iff (most : Nat) (fence : Option Fence) {ls : List Line}
    (huniform : Uniform ls)
    (hend : ∀ l, ls.getLast? = some l → l.isCode = false ∧ l.text ≠ []) :
    Shows most ls ((squeezeFrom most fence 0 (ls.map Line.text)).rdropWhile List.isEmpty) ↔
      ScanAgrees most fence ls := by
  induction ls using run_induction generalizing fence with
  | blanks bs hbs =>
    obtain ⟨c, hc⟩ := uniform_blanks hbs huniform
    obtain ⟨count, hsqueeze⟩ := squeezeFrom_blanks most fence
      (List.forall_mem_map.mpr hbs : ∀ t ∈ bs.map Line.text, allBlank t = true) []
    rw [List.append_nil] at hsqueeze
    rw [hsqueeze, squeezeFrom, List.append_nil, keptOf_map]
    exact shows_end_iff hbs hc hend
  | step bs l rest hbs hl ih =>
    have hchain := List.isChain_append.mp huniform
    obtain ⟨c, hc⟩ := uniform_blanks hbs hchain.1
    obtain ⟨count, hsqueeze⟩ := squeezeFrom_blanks most fence
      (List.forall_mem_map.mpr hbs : ∀ t ∈ bs.map Line.text, allBlank t = true)
      (l.text :: rest.map Line.text)
    have hne : l.text.isEmpty = false := by
      cases ht : l.text with
      | nil =>
        rw [Line.isBlank, ht] at hl
        cases hl
      | cons d t => rfl
    have hrest : ∀ k, rest.getLast? = some k → k.isCode = false ∧ k.text ≠ [] := fun k hk =>
      hend k (by rw [List.getLast?_append, List.getLast?_cons, hk]; rfl)
    rw [List.map_append, List.map_cons, hsqueeze, squeezeFrom_cons _ _ _ hl,
      Text.rdropWhile_append_cons hne, keptOf_map, shows_append_cons hbs hl (blank_of_mem_keptOf hbs), shows_keptOf_iff hbs hc,
      scanAgrees_append_cons hbs hl, ih _ hchain.2.1.tail hrest]

end Hypermark.Markdown
