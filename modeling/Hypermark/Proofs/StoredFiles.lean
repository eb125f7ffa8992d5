import Mathlib.Data.List.Basic
import Hypermark.Command.Files

/-!
# Where paths lead, and what writing leaves alone

A path that can be followed leads where its text alone says, so two paths that name different files
are told apart without looking at the store.  `OnlyWrites` says that one store becomes another by
writing files at some places: all else stays as it is, and directories neither come nor go.  Under
it every path that leads elsewhere can be read and written as before.

* `locate_tidy`, `eq_fullParts_of_locate`, `avoids_of_fullParts_not_mem`: where a path leads.
* `modifyAt_onlyWrites`: one write changes one place.
* `OnlyWrites.read_eq_ok_iff`, `OnlyWrites.writable_iff`: writing some files does not decide about
  others.
-/

namespace Hypermark.FileStore

/-! ## Parts of paths -/

theorem partsOf_append_slash (s t : Text) : partsOf (s ++ '/' :: t) = partsOf s ++ partsOf t := by
  rw [partsOf, List.splitOn_append_cons_self, List.filter_append]
  rfl

theorem partsOf_slash (t : Text) : partsOf ('/' :: t) = partsOf t := partsOf_append_slash [] t

theorem partsOf_of_no_slash {t : Text} (h : '/' ∉ t) :
    partsOf t = if t.isEmpty || t == ['.'] then [] else [t] := by
  rw [partsOf, List.splitOn_eq_singleton h, List.filter_singleton]
  by_cases hempty : t = []
  · simp [hempty]
  · have hnil : t.isEmpty = false := List.isEmpty_eq_false_iff.mpr hempty
    by_cases hdot : t = ['.']
    · simp [hdot]
    · have hstay : (t == ['.']) = false := by simpa using hdot
      simp only [hnil, hstay, bne, Bool.not_false, Bool.and_self, Bool.or_self, cond_true,
        Bool.false_eq_true, if_false]

/-- Neither empty, nor one that stays where it is, nor two parts in one. -/
def IsPart (p : Text) : Prop := p ≠ [] ∧ p ≠ ['.'] ∧ '/' ∉ p

theorem isPart_of_mem_partsOf {path p : Text} (h : p ∈ partsOf path) : IsPart p := by
  generalize hlength : path.length = n
  induction n using Nat.strongRecOn generalizing path with
  | ind n ih =>
    by_cases hslash : '/' ∈ path
    · obtain ⟨s, t, rfl, hs⟩ := List.eq_append_cons_of_mem hslash
      rw [List.length_append, List.length_cons] at hlength
      rw [partsOf_append_slash] at h
      rcases List.mem_append.mp h with h | h
      · exact ih _ (by omega) h rfl
      · exact ih _ (by omega) h rfl
    · rw [partsOf_of_no_slash hslash] at h
      split at h
      · cases h
      · rename_i hnot
        rw [List.mem_singleton] at h
        subst h
        simp only [Bool.or_eq_true, List.isEmpty_iff, beq_iff_eq, not_or] at hnot
        exact ⟨hnot.1, hnot.2, hslash⟩

theorem partsOf_part {p : Text} (h : IsPart p) : partsOf p = [p] := by
  rw [partsOf_of_no_slash h.2.2, if_neg]
  simp [h.1, h.2.1]

theorem partsOf_intercalate {ps : List Text} (h : ∀ p ∈ ps, IsPart p) :
    partsOf (['/'].intercalate ps) = ps := by
  induction ps with
  | nil => rfl
  | cons p ps ih =>
    rw [List.forall_mem_cons] at h
    cases ps with
    | nil => simpa using partsOf_part h.1
    | cons q qs =>
      rw [List.intercalate_cons_cons, List.append_assoc, List.singleton_append,
        partsOf_append_slash, partsOf_part h.1, ih h.2, List.singleton_append]

theorem partsOf_tidy (path : Text) : partsOf (tidy path) = partsOf path := by
  have hparts : partsOf (['/'].intercalate (partsOf path)) = partsOf path :=
    partsOf_intercalate fun _ => isPart_of_mem_partsOf
  unfold tidy
  dsimp only
  split
  · rw [partsOf_slash, hparts]
  · split
    · rename_i hempty
      rw [List.isEmpty_iff] at hempty
      rw [← hparts, hempty]
      rfl
    · exact hparts

/-- What does not start with a slash has no part that does. -/
theorem isAbsolute_tidy (path : Text) : isAbsolute (tidy path) = isAbsolute path := by
  cases habs : isAbsolute path with
  | true =>
    simp only [tidy, habs, if_true]
    rfl
  | false =>
    simp only [tidy, habs, Bool.false_eq_true, if_false]
    cases hparts : partsOf path with
    | nil => rfl
    | cons p ps =>
      have hp : IsPart p := isPart_of_mem_partsOf (by rw [hparts]; exact List.mem_cons_self ..)
      obtain ⟨c, cs, rfl⟩ := List.exists_cons_of_ne_nil hp.1
      have hc : c ≠ '/' := fun h => hp.2.2 (by simp [h])
      cases ps <;> simp [isAbsolute, List.intercalate_cons_cons, hc]

theorem partsOf_whole (store : FileStore) (path : Text) :
    partsOf (store.whole path) =
      (if isAbsolute path then [] else partsOf store.workingDirectory) ++ partsOf path := by
  unfold whole
  split
  · rfl
  · exact partsOf_append_slash _ _

/-- Tidying a path does not change where it leads. -/
theorem locate_tidy (store : FileStore) (path : Text) :
    store.locate (tidy path) = store.locate path := by
  rw [locate, locate, partsOf_whole, partsOf_whole, isAbsolute_tidy, partsOf_tidy]

theorem read_tidy (store : FileStore) (path : Text) : store.read (tidy path) = store.read path := by
  rw [read, read, locate_tidy]

theorem write_tidy (store : FileStore) (path : Text) (content : List UInt8) :
    store.write (tidy path) content = store.write path content := by
  rw [write, write, locate_tidy]

/-! ## Following paths -/

theorem walk_eq_resolveParts {store : FileStore} {here parts ps : List Text}
    (h : store.walk here ps = .ok parts) : parts = resolveParts here ps := by
  induction ps generalizing here with
  | nil => exact (Except.ok.inj h).symm
  | cons p ps ih =>
    rw [walk] at h
    split at h
    · cases h
    · cases h
    · cases h
    · cases h
    · rw [resolveParts]
      split at h
      · rename_i hp
        rw [if_pos hp]
        exact ih h
      · rename_i hp
        rw [if_neg hp]
        exact ih h

/-- A path that can be followed leads where its text alone says. -/
theorem eq_fullParts_of_locate {store : FileStore} {path : Text} {parts : List Text}
    (h : store.locate path = .ok parts) : parts = store.fullParts path := walk_eq_resolveParts h

/-- The path leads to none of the places. -/
def Avoids (store : FileStore) (path : Text) (places : List (List Text)) : Prop :=
  ∀ parts ∈ places, store.locate path ≠ .ok parts

/-- Which files a path leads to can be told from its text alone. -/
theorem avoids_of_fullParts_not_mem {store : FileStore} {path : Text} {places : List (List Text)}
    (h : store.fullParts path ∉ places) : store.Avoids path places := by
  intro parts hmem hlocate
  rw [eq_fullParts_of_locate hlocate] at hmem
  exact h hmem

theorem parentPart_not_mem_resolveParts {done : List Text} (h : parentPart ∉ done)
    (ps : List Text) : parentPart ∉ resolveParts done ps := by
  induction ps generalizing done with
  | nil => exact h
  | cons p ps ih =>
    rw [resolveParts]
    split
    · exact ih fun hmem => h (List.dropLast_subset _ hmem)
    · rename_i hp
      exact ih (by simp [h, Ne.symm hp])

theorem resolveParts_of_no_parent (done : List Text) {ps : List Text} (h : parentPart ∉ ps) :
    resolveParts done ps = done ++ ps := by
  induction ps generalizing done with
  | nil => simp [resolveParts]
  | cons p ps ih =>
    rw [List.mem_cons, not_or] at h
    rw [resolveParts, if_neg (Ne.symm h.1), ih _ h.2, List.append_assoc, List.singleton_append]

theorem resolveParts_fullParts (store : FileStore) (path : Text) :
    resolveParts [] (store.fullParts path) = store.fullParts path :=
  resolveParts_of_no_parent [] (parentPart_not_mem_resolveParts List.not_mem_nil _)

/-! ## Writing -/

/-- The second store is the first one with nothing changed but files at some places. -/
structure OnlyWrites (places : List (List Text)) (a b : FileStore) : Prop where
  workingDirectory : b.workingDirectory = a.workingDirectory
  elsewhere : ∀ parts, parts ∉ places → b.at? parts = a.at? parts
  directories : ∀ parts, b.at? parts = some .directory ↔ a.at? parts = some .directory

namespace OnlyWrites

variable {places places' : List (List Text)} {a b c : FileStore}

theorem refl (places : List (List Text)) (a : FileStore) : OnlyWrites places a a :=
  ⟨rfl, fun _ _ => rfl, fun _ => Iff.rfl⟩

theorem trans (hab : OnlyWrites places a b) (hbc : OnlyWrites places b c) :
    OnlyWrites places a c where
  workingDirectory := hbc.workingDirectory.trans hab.workingDirectory
  elsewhere parts h := (hbc.elsewhere parts h).trans (hab.elsewhere parts h)
  directories parts := (hbc.directories parts).trans (hab.directories parts)

theorem mono (h : OnlyWrites places a b) (hsub : places ⊆ places') : OnlyWrites places' a b where
  workingDirectory := h.workingDirectory
  elsewhere parts hnot := h.elsewhere parts fun hmem => hnot (hsub hmem)
  directories := h.directories

end OnlyWrites

/-- A write puts a file where there was one, or nothing. -/
theorem modifyAt_eq_ok {store store' : FileStore} {f : List UInt8 → List UInt8}
    {located : Except FileProblem (List Text)} (h : store.modifyAt f located = .ok store') :
    ∃ parts content, located = .ok parts ∧ store.at? parts ≠ some .directory ∧
      store' = store.put parts (.file (f content)) := by
  unfold modifyAt at h
  split at h
  · cases h
  · rename_i parts
    split at h
    · rename_i content hat
      exact ⟨parts, content, rfl, by simp [hat], (Except.ok.inj h).symm⟩
    · cases h
    · cases h
    · rename_i hat
      exact ⟨parts, [], rfl, by simp [hat], (Except.ok.inj h).symm⟩

theorem ne_nil_of_not_directory {store : FileStore} {parts : List Text}
    (h : store.at? parts ≠ some .directory) : parts ≠ [] := by
  rintro rfl
  exact h rfl

theorem put_onlyWrites {store : FileStore} {parts : List Text}
    (h : store.at? parts ≠ some .directory) (content : List UInt8) :
    OnlyWrites [parts] store (store.put parts (.file content)) := by
  have hother : ∀ other, other ∉ [parts] →
      (store.put parts (.file content)).at? other = store.at? other := fun other hnot =>
    at?_put_of_ne store (by simpa using hnot) _
  refine ⟨rfl, hother, fun other => ?_⟩
  by_cases heq : other = parts
  · subst heq
    rw [at?_put store (ne_nil_of_not_directory h)]
    simp [h]
  · rw [hother other (by simpa using heq)]

/-- One write changes one place, and puts a file there. -/
theorem modifyAt_onlyWrites {store store' : FileStore} {f : List UInt8 → List UInt8}
    {located : Except FileProblem (List Text)} (h : store.modifyAt f located = .ok store') :
    ∃ parts content, located = .ok parts ∧ OnlyWrites [parts] store store' ∧
      store'.at? parts = some (.file (f content)) := by
  obtain ⟨parts, content, hlocated, hdir, rfl⟩ := modifyAt_eq_ok h
  exact ⟨parts, content, hlocated, put_onlyWrites hdir _,
    at?_put store (ne_nil_of_not_directory hdir) _⟩

theorem write_onlyWrites {store store' : FileStore} {path : Text} {content : List UInt8}
    (h : store.write path content = .ok store') :
    ∃ parts, store.locate path = .ok parts ∧ OnlyWrites [parts] store store' ∧
      store'.at? parts = some (.file content) := by
  obtain ⟨parts, -, hlocate, hwrites, hat⟩ := modifyAt_onlyWrites h
  exact ⟨parts, hlocate, hwrites, hat⟩

theorem append_onlyWrites {store store' : FileStore} {parts : List Text} {content : List UInt8}
    (h : store.append parts content = .ok store') :
    OnlyWrites [resolveParts [] parts] store store' := by
  obtain ⟨parts', -, hlocated, hwrites, -⟩ := modifyAt_onlyWrites h
  obtain rfl := walk_eq_resolveParts hlocated
  exact hwrites

/-! ## Reading and writing afterwards -/

theorem read_eq_ok_iff {store : FileStore} {path : Text} {content : List UInt8} :
    store.read path = .ok content ↔ ∃ parts, store.locate path = .ok parts ∧
      (store.at? parts = some (.file content) ∨
        ∃ problem, store.at? parts = some (.barred (some content) problem)) := by
  unfold read
  cases store.locate path with
  | error problem => simp
  | ok parts =>
    cases hat : store.at? parts with
    | none => simp [hat]
    | some entry =>
      cases entry with
      | directory => simp [hat]
      | file c => simp [hat]
      | barred c problem => cases c <;> simp [hat]

/-- The path leads to a file that may be written, or to where one may be made. -/
def Writable (store : FileStore) (path : Text) : Prop :=
  ∃ parts, store.locate path = .ok parts ∧
    (store.at? parts = none ∨ ∃ content, store.at? parts = some (.file content))

/-- What is written does not decide whether it can be. -/
theorem exists_write_iff {store : FileStore} {path : Text} {content : List UInt8} :
    (∃ store', store.write path content = .ok store') ↔ store.Writable path := by
  unfold write modifyAt Writable
  cases store.locate path with
  | error problem => simp
  | ok parts =>
    cases hat : store.at? parts with
    | none => simp [hat]
    | some entry => cases entry <;> simp [hat]

theorem walk_eq_ok_iff_of_directories {a b : FileStore}
    (h : ∀ parts, b.at? parts = some .directory ↔ a.at? parts = some .directory)
    {here parts ps : List Text} : b.walk here ps = .ok parts ↔ a.walk here ps = .ok parts := by
  -- Only directories are walked through.
  have hstep (s : FileStore) (here : List Text) (p : Text) (ps : List Text) :
      s.walk here (p :: ps) = .ok parts ↔ s.at? here = some .directory ∧
        s.walk (if p = parentPart then here.dropLast else here ++ [p]) ps = .ok parts := by
    rw [walk]
    cases hat : s.at? here with
    | none => simp
    | some entry =>
      cases entry with
      | directory => by_cases hp : p = parentPart <;> simp [hp]
      | file c => simp
      | barred c problem => cases c <;> simp
  induction ps generalizing here with
  | nil => simp [walk]
  | cons p ps ih =>
    rw [hstep, hstep, h]
    exact and_congr_right fun _ => ih

namespace OnlyWrites

variable {places : List (List Text)} {a b : FileStore} {path : Text}

theorem locate_eq_ok_iff (h : OnlyWrites places a b) {parts : List Text} :
    b.locate path = .ok parts ↔ a.locate path = .ok parts := by
  have hwhole : b.whole path = a.whole path := by simp [whole, h.workingDirectory]
  rw [locate, locate, hwhole]
  exact walk_eq_ok_iff_of_directories h.directories

theorem avoids (h : OnlyWrites places a b) {others : List (List Text)}
    (hpath : a.Avoids path others) : b.Avoids path others := fun parts hmem hlocate =>
  hpath parts hmem (h.locate_eq_ok_iff.mp hlocate)

theorem at?_eq_of_locate (h : OnlyWrites places a b) (hpath : a.Avoids path places)
    {parts : List Text} (hlocate : a.locate path = .ok parts) : b.at? parts = a.at? parts :=
  h.elsewhere parts fun hmem => hpath parts hmem hlocate

/-- Files elsewhere are read as before. -/
theorem read_eq_ok_iff (h : OnlyWrites places a b) (hpath : a.Avoids path places)
    {content : List UInt8} : b.read path = .ok content ↔ a.read path = .ok content := by
  rw [FileStore.read_eq_ok_iff, FileStore.read_eq_ok_iff]
  refine exists_congr fun parts => ?_
  rw [h.locate_eq_ok_iff]
  refine and_congr_right fun hlocate => ?_
  rw [h.at?_eq_of_locate hpath hlocate]

/-- Files elsewhere can be written as before. -/
theorem writable_iff (h : OnlyWrites places a b) (hpath : a.Avoids path places) :
    b.Writable path ↔ a.Writable path := by
  refine exists_congr fun parts => ?_
  rw [h.locate_eq_ok_iff]
  refine and_congr_right fun hlocate => ?_
  rw [h.at?_eq_of_locate hpath hlocate]

end OnlyWrites

end Hypermark.FileStore
