import Hypermark.Proofs.Trim
import Hypermark.Proofs.WordBoundaries

/-!
# Pruning in rounds

Pruning can be done in rounds.  A round looks at the last fragment only: it stops at markup, cuts
off a pipe that dangles at the end of literal text, and drops a fragment of which nothing visible is
left.  Then the next round looks at what is last now, so separators that are spread over several
fragments go one after another.

Every round makes the buffer smaller, in characters or in fragments, and comes to the same pruned
buffer in the end.  So the rounds end, and they end in `prune`.

* `cutSeparator_append`: what is cut off a text in one round.
* `exists_rounds`: the rounds end in the pruned buffer, and there are no more of them than the
  buffer has characters and fragments.
* `Rounds.sheds`, `Rounds.filter_isMarkup`: what a run of rounds takes away and what it leaves.
* `prune_drops_dangling_end`: what pruning does to any buffer.
-/

namespace Hypermark

namespace Text

/-! ## Separators at the end of a text -/

/-- What goes with a pipe in front of it. -/
def isIndent (c : Char) : Bool := c == ' ' || c == '\t'

/-- The text is a dangling separator: spaces and tabs, a pipe, then nothing but white space. -/
def isDangling (t : Text) : Bool :=
  match t.dropWhile isIndent with
  | '|' :: rest => allBlank rest
  | _ => false

/-- The text up to the first place where a separator dangles. -/
def cutSeparator : Text → Text
  | [] => []
  | c :: cs => if isDangling (c :: cs) then [] else c :: cutSeparator cs

/-- The last visible character is a pipe. -/
def EndsInPipe (t : Text) : Prop := ∃ u w, t = u ++ '|' :: w ∧ allBlank w = true

theorem isDangling_append (u : Text) {w : Text} (hw : allBlank w = true) :
    isDangling (u ++ '|' :: w) = u.all isIndent := by
  induction u with
  | nil => simpa [isDangling, isIndent] using hw
  | cons c u ih =>
    by_cases hc : isIndent c = true
    · have hskip : isDangling (c :: (u ++ '|' :: w)) = isDangling (u ++ '|' :: w) := by
        simp [isDangling, hc]
      rw [List.cons_append, hskip, ih]
      simp [hc]
    · have hpipe : allBlank (u ++ '|' :: w) = false := by
        simp [allBlank, isBlank]
      simp only [List.cons_append, isDangling, List.dropWhile_cons, hc, List.all_cons]
      split
      · simp_all
      · simp

theorem endsInPipe_of_isDangling {t : Text} (h : isDangling t = true) : EndsInPipe t := by
  unfold isDangling at h
  split at h
  · rename_i rest hrest
    exact ⟨t.takeWhile isIndent, rest, by rw [← hrest, List.takeWhile_append_dropWhile], h⟩
  · cases h

theorem EndsInPipe.cons {t : Text} (h : EndsInPipe t) (c : Char) : EndsInPipe (c :: t) := by
  obtain ⟨u, w, rfl, hw⟩ := h
  exact ⟨c :: u, w, rfl, hw⟩

/-- One round cuts off the last pipe, with the spaces and tabs in front of it. -/
theorem cutSeparator_append (u : Text) {w : Text} (hw : allBlank w = true) :
    cutSeparator (u ++ '|' :: w) = dropEndWhile isIndent u := by
  induction u with
  | nil =>
    have h := isDangling_append [] hw
    rw [List.nil_append] at h ⊢
    simp [cutSeparator, h, dropEndWhile]
  | cons c u ih =>
    have h := isDangling_append (c :: u) hw
    rw [List.cons_append] at h ⊢
    rw [cutSeparator, h, ih]
    by_cases hall : (c :: u).all isIndent = true
    · rw [if_pos hall, (dropEndWhile_eq_nil_iff isIndent (c :: u)).mpr hall]
    · rw [if_neg hall]
      show c :: u.rdropWhile isIndent = ([c] ++ u).rdropWhile isIndent
      rw [rdropWhile_append]
      split
      · rename_i hu
        have hc : isIndent c = false := by simpa [hu] using hall
        have hnil : u.rdropWhile isIndent = [] := (dropEndWhile_eq_nil_iff isIndent u).mpr hu
        simp [hnil, List.rdropWhile_singleton, hc]
      · rfl

theorem cutSeparator_of_not_endsInPipe {t : Text} (h : ¬ EndsInPipe t) : cutSeparator t = t := by
  induction t with
  | nil => rfl
  | cons c t ih =>
    have hnot : isDangling (c :: t) = false :=
      Bool.eq_false_iff.mpr fun hd => h (endsInPipe_of_isDangling hd)
    simp [cutSeparator, hnot, ih fun ht => h (ht.cons c)]

theorem endsInPipe_iff (t : Text) : EndsInPipe t ↔ (trimEnd t).getLast? = some '|' := by
  constructor
  · rintro ⟨u, w, rfl, hw⟩
    have hnil : w.rdropWhile isBlank = [] := (dropEndWhile_eq_nil_iff isBlank w).mpr hw
    show ((u ++ '|' :: w).rdropWhile isBlank).getLast? = some '|'
    rw [rdropWhile_append_cons (by rfl), hnil]
    simp
  · intro h
    obtain ⟨u, hu⟩ := List.getLast?_eq_some_iff.mp h
    refine ⟨u, t.rtakeWhile isBlank, ?_, ?_⟩
    · have hsplit : trimEnd t ++ t.rtakeWhile isBlank = t := List.rdropWhile_append_rtakeWhile ..
      rw [hu] at hsplit
      simpa using hsplit.symm
    · exact List.all_eq_true.mpr fun c hc => List.mem_rtakeWhile_imp hc

/-- Dropping more at the end makes up for what was dropped before. -/
theorem dropEndWhile_dropEndWhile {p q : Char → Bool} (h : ∀ c, p c = true → q c = true)
    (t : Text) : dropEndWhile q (dropEndWhile p t) = dropEndWhile q t := by
  have hall : (t.rtakeWhile p).all q = true :=
    List.all_eq_true.mpr fun c hc => h c (List.mem_rtakeWhile_imp hc)
  calc dropEndWhile q (dropEndWhile p t)
      = (t.rdropWhile p ++ t.rtakeWhile p).rdropWhile q := by
        rw [rdropWhile_append, if_pos hall]
        rfl
    _ = dropEndWhile q t := by
        rw [List.rdropWhile_append_rtakeWhile]
        rfl

end Text

namespace Buffer

open Text

/-! ## Pruning of the last fragment -/

theorem isSeparator_of_isBlank {c : Char} (h : isBlank c = true) : isSeparator c = true := by
  simp [isSeparator, h]

theorem isBlank_of_isIndent {c : Char} (h : isIndent c = true) : isBlank c = true := by
  simp only [isIndent, Bool.or_eq_true, beq_iff_eq] at h
  rcases h with h | h <;> subst h <;> rfl

theorem pruneText_of_not_endsInPipe {t : Text} (h : ¬ EndsInPipe t) : pruneText t = t := by
  rw [endsInPipe_iff] at h
  simp [pruneText, h]

theorem pruneText_of_endsInPipe {t : Text} (h : EndsInPipe t) :
    pruneText t = dropEndWhile isSeparator t := by
  rw [endsInPipe_iff] at h
  simp [pruneText, h]

theorem pruneText_trimEnd (t : Text) : pruneText (trimEnd t) = dropEndWhile isSeparator t := by
  rw [← dropEndWhile_dropEndWhile (p := isBlank) fun _ => isSeparator_of_isBlank]
  by_cases h : EndsInPipe (trimEnd t)
  · exact pruneText_of_endsInPipe h
  · -- The last character is neither white space nor a pipe, so there is nothing to drop.
    rw [pruneText_of_not_endsInPipe h]
    refine (dropEndWhile_of_getLast? fun c hc => ?_).symm
    have hblank : isBlank c = false := getLast?_dropEndWhile hc
    have hpipe : c ≠ '|' := by
      rintro rfl
      obtain ⟨u, hu⟩ := List.getLast?_eq_some_iff.mp hc
      exact h ⟨u, [], hu, rfl⟩
    simp [isSeparator, hblank, hpipe]

/-- A round does not change what a text is pruned to. -/
theorem pruneText_cutSeparator {t : Text} (h : EndsInPipe t) :
    pruneText (trimEnd (cutSeparator t)) = pruneText t := by
  rw [pruneText_trimEnd, pruneText_of_endsInPipe h]
  obtain ⟨u, w, rfl, hw⟩ := h
  have htail : ('|' :: w).all isSeparator = true := by
    have hw' := List.all_eq_true.mp hw
    simpa [isSeparator] using fun c hc => Or.inl (hw' c hc)
  rw [cutSeparator_append u hw,
    dropEndWhile_dropEndWhile fun _ hc => isSeparator_of_isBlank (isBlank_of_isIndent hc)]
  show u.rdropWhile isSeparator = (u ++ '|' :: w).rdropWhile isSeparator
  rw [rdropWhile_append, if_pos htail]

theorem prune_concat_text (b : Buffer) (t : Text) :
    prune (b ++ [.text t]) =
      if allBlank (pruneText t) then prune b else b ++ [.text (pruneText t)] := by
  simp only [prune, List.reverse_append, List.reverse_singleton, List.singleton_append, pruneEnd]
  split
  · rfl
  · simp

theorem prune_concat_hardBreak (b : Buffer) (t : Text) :
    prune (b ++ [.hardBreak t]) = if allBlank t then prune b else b ++ [.hardBreak t] := by
  simp only [prune, List.reverse_append, List.reverse_singleton, List.singleton_append, pruneEnd]
  split
  · rfl
  · simp

/-! ## Rounds -/

/-- What one round leaves of the last fragment, unless pruning ends there. -/
def roundOff? : Fragment → Option Buffer
  | .markup _ => none
  | .text t =>
    if cutSeparator t = t then
      if allBlank t then some [] else none
    else if (trimEnd (cutSeparator t)).isEmpty then some []
    else some [.text (trimEnd (cutSeparator t))]
  | .hardBreak t => if allBlank t then some [] else none

/-- The buffer after one more round, unless pruning ends here. -/
def round? (b : Buffer) : Option Buffer :=
  b.getLast?.bind fun f => (roundOff? f).map (b.dropLast ++ ·)

/-- The second buffer is what the first one becomes in so many rounds. -/
inductive Rounds : Nat → Buffer → Buffer → Prop
  | none (b : Buffer) : Rounds 0 b b
  | more {n : Nat} {a b c : Buffer} : round? a = some b → Rounds n b c → Rounds (n + 1) a c

theorem round?_concat (b : Buffer) (f : Fragment) :
    round? (b ++ [f]) = (roundOff? f).map (b ++ ·) := by
  simp [round?]

/-- Characters and fragments. -/
def size (b : Buffer) : Nat := b.raw.length + b.length

/-- The second text is the first one less white space and pipes at the end. -/
def Sheds (s t : Text) : Prop := ∃ tail, s = t ++ tail ∧ ∀ c ∈ tail, isBlank c = true ∨ c = '|'

theorem Sheds.refl (t : Text) : Sheds t t := ⟨[], by simp, by simp⟩

theorem Sheds.trans {r s t : Text} (h : Sheds r s) (h' : Sheds s t) : Sheds r t := by
  obtain ⟨u, rfl, hu⟩ := h
  obtain ⟨v, rfl, hv⟩ := h'
  refine ⟨v ++ u, by simp, fun c hc => ?_⟩
  rcases List.mem_append.mp hc with hc | hc
  · exact hv c hc
  · exact hu c hc

theorem Sheds.append_left {s t : Text} (h : Sheds s t) (r : Text) : Sheds (r ++ s) (r ++ t) := by
  obtain ⟨tail, rfl, htail⟩ := h
  exact ⟨tail, by simp, htail⟩

theorem sheds_of_allBlank {t : Text} (h : allBlank t = true) : Sheds t [] :=
  ⟨t, rfl, fun c hc => .inl (List.all_eq_true.mp h c hc)⟩

theorem sheds_dropEndWhile {p : Char → Bool} (hp : ∀ c, p c = true → isBlank c = true) (t : Text) :
    Sheds t (dropEndWhile p t) :=
  ⟨t.rtakeWhile p, (List.rdropWhile_append_rtakeWhile ..).symm, fun c hc =>
    .inl (hp c (List.mem_rtakeWhile_imp hc))⟩

theorem sheds_cutSeparator (t : Text) : Sheds t (trimEnd (cutSeparator t)) := by
  refine .trans ?_ (sheds_dropEndWhile (fun _ h => h) _)
  by_cases h : EndsInPipe t
  · obtain ⟨u, w, rfl, hw⟩ := h
    rw [cutSeparator_append u hw]
    refine .trans ⟨'|' :: w, rfl, fun c hc => ?_⟩
      (sheds_dropEndWhile (fun _ => isBlank_of_isIndent) u)
    rcases List.mem_cons.mp hc with rfl | hc
    · exact .inr rfl
    · exact .inl (List.all_eq_true.mp hw c hc)
  · rw [cutSeparator_of_not_endsInPipe h]
    exact .refl t

theorem length_cutSeparator_lt {t : Text} (h : EndsInPipe t) :
    (trimEnd (cutSeparator t)).length < t.length := by
  obtain ⟨u, w, rfl, hw⟩ := h
  have htrim := (List.rdropWhile_prefix isBlank (dropEndWhile isIndent u)).length_le
  have hindent := (List.rdropWhile_prefix isIndent u).length_le
  rw [cutSeparator_append u hw]
  simp only [trimEnd, dropEndWhile, List.rdropWhile, List.length_append, List.length_cons] at *
  omega

/-! ### One round -/

theorem cutSeparator_eq_self_iff (t : Text) : cutSeparator t = t ↔ ¬ EndsInPipe t := by
  refine ⟨fun h hends => ?_, cutSeparator_of_not_endsInPipe⟩
  have hlt := length_cutSeparator_lt hends
  obtain ⟨u, w, rfl, hw⟩ := hends
  have hindent := (List.rdropWhile_prefix isIndent u).length_le
  have hlength := congrArg List.length h
  rw [cutSeparator_append u hw, List.length_append, List.length_cons] at hlength
  simp only [dropEndWhile, List.rdropWhile] at hlength hindent
  omega

theorem roundOff?_of_endsInPipe {t : Text} (h : EndsInPipe t) :
    roundOff? (.text t) = if (trimEnd (cutSeparator t)).isEmpty then some []
      else some [.text (trimEnd (cutSeparator t))] :=
  if_neg fun hself => (cutSeparator_eq_self_iff t).mp hself h

theorem roundOff?_of_not_endsInPipe {t : Text} (h : ¬ EndsInPipe t) :
    roundOff? (.text t) = if allBlank t then some [] else none :=
  if_pos (cutSeparator_of_not_endsInPipe h)

/-- All that one round can do to the last fragment. -/
theorem roundOff?_cases {f : Fragment} {rest : Buffer} (h : roundOff? f = some rest) :
    (∃ t, f = .text t ∧ EndsInPipe t ∧ trimEnd (cutSeparator t) = [] ∧ rest = []) ∨
    (∃ t, f = .text t ∧ EndsInPipe t ∧ rest = [.text (trimEnd (cutSeparator t))]) ∨
    (∃ t, f = .text t ∧ ¬ EndsInPipe t ∧ allBlank t = true ∧ rest = []) ∨
    (∃ t, f = .hardBreak t ∧ allBlank t = true ∧ rest = []) := by
  cases f with
  | markup m => cases h
  | text t =>
    by_cases hends : EndsInPipe t
    · rw [roundOff?_of_endsInPipe hends] at h
      split at h
      · rename_i hnil
        exact .inl ⟨t, rfl, hends, List.isEmpty_iff.mp hnil, (Option.some.inj h).symm⟩
      · exact .inr (.inl ⟨t, rfl, hends, (Option.some.inj h).symm⟩)
    · rw [roundOff?_of_not_endsInPipe hends] at h
      split at h
      · rename_i hblank
        exact .inr (.inr (.inl ⟨t, rfl, hends, hblank, (Option.some.inj h).symm⟩))
      · cases h
  | hardBreak t =>
    simp only [roundOff?] at h
    split at h
    · rename_i hblank
      exact .inr (.inr (.inr ⟨t, rfl, hblank, (Option.some.inj h).symm⟩))
    · cases h

/-- Pruning ends at markup, and at anything visible that does not end in a pipe. -/
theorem roundOff?_eq_none_iff (f : Fragment) :
    roundOff? f = none ↔ f.isMarkup = true ∨
      allBlank f.content = false ∧ ∀ t, f = .text t → ¬ EndsInPipe t := by
  cases f with
  | markup m => simp [roundOff?, Fragment.isMarkup]
  | text t =>
    by_cases hends : EndsInPipe t
    · rw [roundOff?_of_endsInPipe hends]
      by_cases hnil : trimEnd (cutSeparator t) = [] <;> simp [Fragment.isMarkup, hends, hnil]
    · rw [roundOff?_of_not_endsInPipe hends]
      by_cases hblank : allBlank t = true <;>
        simp [Fragment.isMarkup, Fragment.content, hends, hblank]
  | hardBreak t =>
    by_cases hblank : allBlank t = true <;>
      simp [roundOff?, Fragment.isMarkup, Fragment.content, hblank]

theorem sheds_roundOff {f : Fragment} {rest : Buffer} (h : roundOff? f = some rest) :
    Sheds f.content rest.raw := by
  rcases roundOff?_cases h with ⟨t, rfl, -, hnil, rfl⟩ | ⟨t, rfl, -, rfl⟩ |
    ⟨t, rfl, -, hblank, rfl⟩ | ⟨t, rfl, hblank, rfl⟩
  · show Sheds t []
    rw [← hnil]
    exact sheds_cutSeparator t
  · show Sheds t (raw [.text (trimEnd (cutSeparator t))])
    simpa [raw, Fragment.content] using sheds_cutSeparator t
  · exact sheds_of_allBlank hblank
  · exact sheds_of_allBlank hblank

theorem filter_isMarkup_roundOff {f : Fragment} {rest : Buffer} (h : roundOff? f = some rest) :
    rest.filter Fragment.isMarkup = [f].filter Fragment.isMarkup := by
  rcases roundOff?_cases h with ⟨t, rfl, -, -, rfl⟩ | ⟨t, rfl, -, rfl⟩ | ⟨t, rfl, -, -, rfl⟩ |
    ⟨t, rfl, -, rfl⟩ <;> rfl

theorem size_append (a b : Buffer) : size (a ++ b) = size a + size b := by
  simp only [size, raw_append, List.length_append]
  omega

/-- A round takes away characters or the whole fragment. -/
theorem size_roundOff_lt {f : Fragment} {rest : Buffer} (h : roundOff? f = some rest) :
    size rest < size [f] := by
  rcases roundOff?_cases h with ⟨t, rfl, -, -, rfl⟩ | ⟨t, rfl, hends, rfl⟩ |
    ⟨t, rfl, -, -, rfl⟩ | ⟨t, rfl, -, rfl⟩
  · simp [size, raw]
  · have hlt := length_cutSeparator_lt hends
    simpa [size, raw, Fragment.content] using hlt
  · simp [size, raw]
  · simp [size, raw]

theorem prune_roundOff (b : Buffer) {f : Fragment} {rest : Buffer} (h : roundOff? f = some rest) :
    prune (b ++ rest) = prune (b ++ [f]) := by
  rcases roundOff?_cases h with ⟨t, rfl, hends, hnil, rfl⟩ | ⟨t, rfl, hends, rfl⟩ |
    ⟨t, rfl, hnot, hblank, rfl⟩ | ⟨t, rfl, hblank, rfl⟩
  · have hpruned : pruneText t = [] := by
      rw [← pruneText_cutSeparator hends, hnil]
      rfl
    simp [prune_concat_text, hpruned, allBlank]
  · rw [prune_concat_text, prune_concat_text, pruneText_cutSeparator hends]
  · simp [prune_concat_text, pruneText_of_not_endsInPipe hnot, hblank]
  · simp [prune_concat_hardBreak, hblank]

theorem prune_of_roundOff?_eq_none (b : Buffer) {f : Fragment} (h : roundOff? f = none) :
    prune (b ++ [f]) = b ++ [f] := by
  rw [roundOff?_eq_none_iff] at h
  cases f with
  | markup m => exact prune_append_markup b m
  | text t =>
    obtain ⟨hblank, hnot⟩ := h.resolve_left (by simp [Fragment.isMarkup])
    rw [Fragment.content] at hblank
    simp [prune_concat_text, pruneText_of_not_endsInPipe (hnot t rfl), hblank]
  | hardBreak t =>
    obtain ⟨hblank, -⟩ := h.resolve_left (by simp [Fragment.isMarkup])
    rw [Fragment.content] at hblank
    simp [prune_concat_hardBreak, hblank]

theorem exists_concat_of_round? {a b : Buffer} (h : round? a = some b) :
    ∃ before f rest, a = before ++ [f] ∧ roundOff? f = some rest ∧ b = before ++ rest := by
  rcases List.eq_nil_or_concat' a with rfl | ⟨before, f, rfl⟩
  · cases h
  · rw [round?_concat, Option.map_eq_some_iff] at h
    obtain ⟨rest, hrest, rfl⟩ := h
    exact ⟨before, f, rest, rfl, hrest, rfl⟩

/-! ### A run of rounds -/

/-- The rounds end, and they end in the pruned buffer. -/
theorem exists_rounds (b : Buffer) :
    ∃ n ≤ b.size, Rounds n b b.prune ∧ round? b.prune = none := by
  generalize hsize : b.size = k
  induction k using Nat.strongRecOn generalizing b with
  | ind k ih =>
    rcases List.eq_nil_or_concat' b with rfl | ⟨before, f, rfl⟩
    · exact ⟨0, Nat.zero_le _, .none _, rfl⟩
    · cases hround : roundOff? f with
      | none =>
        rw [prune_of_roundOff?_eq_none before hround]
        exact ⟨0, Nat.zero_le _, .none _, by rw [round?_concat, hround]; rfl⟩
      | some rest =>
        have hlt : size (before ++ rest) < k := by
          have hrest := size_roundOff_lt hround
          rw [size_append] at hsize ⊢
          omega
        obtain ⟨n, hn, hrounds, hend⟩ := ih _ hlt _ rfl
        rw [prune_roundOff before hround] at hrounds hend
        exact ⟨n + 1, by omega, .more (by rw [round?_concat, hround]; rfl) hrounds, hend⟩

theorem Rounds.sheds {n : Nat} {a b : Buffer} (h : Rounds n a b) : Sheds a.raw b.raw := by
  induction h with
  | none b => exact .refl _
  | more hround _ ih =>
    obtain ⟨before, f, rest, rfl, hrest, rfl⟩ := exists_concat_of_round? hround
    refine .trans ?_ ih
    rw [raw_append, raw_append]
    have hf : raw [f] = f.content := by simp [raw]
    rw [hf]
    exact (sheds_roundOff hrest).append_left _

theorem Rounds.filter_isMarkup {n : Nat} {a b : Buffer} (h : Rounds n a b) :
    b.filter Fragment.isMarkup = a.filter Fragment.isMarkup := by
  induction h with
  | none b => rfl
  | more hround _ ih =>
    obtain ⟨before, f, rest, rfl, hrest, rfl⟩ := exists_concat_of_round? hround
    rw [ih, List.filter_append, List.filter_append, filter_isMarkup_roundOff hrest]

/-- Pruning ends after as many rounds as there are characters and fragments, at the most.  It takes
nothing but white space and pipes off the end, leaves all markup as it is, and ends at markup or at
something visible that does not end in a pipe; so pruning again changes nothing. -/
theorem prune_drops_dangling_end (b : Buffer) :
    (∃ n ≤ b.raw.length + b.length, Rounds n b b.prune) ∧ round? b.prune = none ∧
      (∃ tail, b.raw = b.prune.raw ++ tail ∧ ∀ c ∈ tail, isBlank c = true ∨ c = '|') ∧
      b.prune.filter Fragment.isMarkup = b.filter Fragment.isMarkup ∧
      (∀ f, b.prune.getLast? = some f → f.isMarkup = true ∨
        allBlank f.content = false ∧ ∀ t, f = .text t → ¬ EndsInPipe t) ∧
      b.prune.prune = b.prune := by
  obtain ⟨n, hn, hrounds, hend⟩ := exists_rounds b
  have hlast : ∀ before f, b.prune = before ++ [f] → roundOff? f = none := by
    intro before f hb
    rw [hb, round?_concat, Option.map_eq_none_iff] at hend
    exact hend
  refine ⟨⟨n, hn, hrounds⟩, hend, hrounds.sheds, hrounds.filter_isMarkup, ?_, ?_⟩
  · intro f hf
    obtain ⟨before, hb⟩ := List.getLast?_eq_some_iff.mp hf
    exact (roundOff?_eq_none_iff f).mp (hlast before f hb)
  · rcases List.eq_nil_or_concat' b.prune with hnil | ⟨before, f, hb⟩
    · rw [hnil]
      rfl
    · rw [hb]
      exact prune_of_roundOff?_eq_none before (hlast before f hb)

/-- Separators go one after another, whatever fragments they are spread over. -/
example : prune [.text "Foo".toList, .text " | ".toList, .hardBreak "\n".toList, .text "| |".toList] =
    [.text "Foo".toList] := by decide

end Buffer

end Hypermark
