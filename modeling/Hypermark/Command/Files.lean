import Hypermark.Fault
import Hypermark.Text.Utf8

/-!
The files that a run of the program sees.

A store holds files and directories under the parts of their paths, and what the system refuses to
open.  Reading and writing go by paths as they are given: relative ones start from the working
directory, and every part but the last must be a directory that is there.  A write that fails leaves
the store as it was.

* `at?_put`: what was written is there.
* `at?_put_of_ne`: writing one path leaves all others as they are.
-/

namespace Hypermark

inductive FileEntry where
  | directory
  | file (content : List UInt8)
  /-- The system does not let it be written, nor read unless its content is given. -/
  | barred (content : Option (List UInt8)) (problem : FileProblem)
deriving DecidableEq, Repr

/-- The files at hand, by the parts of their full paths; the root directory is always there. -/
structure FileStore where
  workingDirectory : Text
  entries : List (List Text × FileEntry)
deriving Repr

namespace FileStore

/-! ## Paths -/

/-- The parts of a path, without empty ones and those that stay where they are. -/
def partsOf (path : Text) : List Text :=
  (path.splitOn '/').filter fun p => !p.isEmpty && p != ['.']

def isAbsolute (path : Text) : Bool := path.head? == some '/'

/-- The path without needless parts. -/
def tidy (path : Text) : Text :=
  let parts := ['/'].intercalate (partsOf path)
  if isAbsolute path then '/' :: parts else if parts.isEmpty then ['.'] else parts

def parentPart : Text := ['.', '.']

/-- The parts with each way up taken back, as far as the text alone tells. -/
def resolveParts (done : List Text) : List Text → List Text
  | [] => done
  | p :: ps => if p = parentPart then resolveParts done.dropLast ps else resolveParts (done ++ [p]) ps

/-- The path from the root, or from where the working directory is written from. -/
def whole (store : FileStore) (path : Text) : Text :=
  if isAbsolute path then path else store.workingDirectory ++ '/' :: path

/-- The parts of the full path, as far as the text alone tells. -/
def fullParts (store : FileStore) (path : Text) : List Text :=
  resolveParts [] (partsOf (store.whole path))

/-- The full path, as messages show it. -/
def fullPath (store : FileStore) (path : Text) : Text :=
  let parts := ['/'].intercalate (store.fullParts path)
  if isAbsolute (store.whole path) then '/' :: parts else parts

/-! ## Entries -/

def at? (store : FileStore) (parts : List Text) : Option FileEntry :=
  if parts.isEmpty then some .directory else store.entries.lookup parts

/-- Puts an entry in place of the one that is there, or else at the end. -/
def putEntry (parts : List Text) (entry : FileEntry) :
    List (List Text × FileEntry) → List (List Text × FileEntry)
  | [] => [(parts, entry)]
  | e :: rest => if e.1 = parts then (parts, entry) :: rest else e :: putEntry parts entry rest

def put (store : FileStore) (parts : List Text) (entry : FileEntry) : FileStore :=
  { store with entries := putEntry parts entry store.entries }

/-- Follows the parts of a path from the directory `here`. -/
def walk (store : FileStore) (here : List Text) : List Text → Except FileProblem (List Text)
  | [] => .ok here
  | p :: ps =>
    match store.at? here with
    | none => .error .missing
    | some (.file _) | some (.barred (some _) _) => .error .notDirectory
    | some (.barred none problem) => .error problem
    | some .directory =>
      if p = parentPart then store.walk here.dropLast ps else store.walk (here ++ [p]) ps

/-- The parts of the full path that a path leads to. -/
def locate (store : FileStore) (path : Text) : Except FileProblem (List Text) :=
  store.walk [] (partsOf (store.whole path))

/-! ## Operations -/

/-- The bytes of the file at a path. -/
def read (store : FileStore) (path : Text) : Except FileProblem (List UInt8) :=
  match store.locate path with
  | .error problem => .error problem
  | .ok parts =>
    match store.at? parts with
    | some (.file content) | some (.barred (some content) _) => .ok content
    | some (.barred none problem) => .error problem
    | some .directory => .error .isDirectory
    | none => .error .missing

/-- The store with new content for a file, made from its old content or from nothing. -/
def modifyAt (store : FileStore) (f : List UInt8 → List UInt8)
    (located : Except FileProblem (List Text)) : Except FileProblem FileStore :=
  match located with
  | .error problem => .error problem
  | .ok parts =>
    match store.at? parts with
    | some (.file content) => .ok (store.put parts (.file (f content)))
    | some (.barred _ problem) => .error problem
    | some .directory => .error .isDirectory
    | none => .ok (store.put parts (.file (f [])))

/-- The store with the file at a path replaced or made. -/
def write (store : FileStore) (path : Text) (content : List UInt8) :
    Except FileProblem FileStore := store.modifyAt (fun _ => content) (store.locate path)

/-- The store with bytes added to the file that has these parts from the root. -/
def append (store : FileStore) (parts : List Text) (content : List UInt8) :
    Except FileProblem FileStore := store.modifyAt (· ++ content) (store.walk [] parts)

/-! ## Lemmas -/

theorem lookup_putEntry (parts : List Text) (entry : FileEntry)
    (entries : List (List Text × FileEntry)) :
    (putEntry parts entry entries).lookup parts = some entry := by
  induction entries with
  | nil => simp [putEntry]
  | cons e rest ih =>
    obtain ⟨k, v⟩ := e
    by_cases h : k = parts
    · simp [putEntry, h]
    · have hk : (parts == k) = false := by simpa using Ne.symm h
      simp [putEntry, h, List.lookup_cons, hk, ih]

theorem lookup_putEntry_of_ne {parts other : List Text} (h : other ≠ parts) (entry : FileEntry)
    (entries : List (List Text × FileEntry)) :
    (putEntry parts entry entries).lookup other = entries.lookup other := by
  have ho : (other == parts) = false := by simpa using h
  induction entries with
  | nil => simp [putEntry, List.lookup_cons, ho]
  | cons e rest ih =>
    obtain ⟨k, v⟩ := e
    by_cases he : k = parts
    · subst he
      simp [putEntry, List.lookup_cons, ho]
    · simp [putEntry, he, List.lookup_cons, ih]

theorem at?_put (store : FileStore) {parts : List Text} (h : parts ≠ []) (entry : FileEntry) :
    (store.put parts entry).at? parts = some entry := by
  have : parts.isEmpty = false := List.isEmpty_eq_false_iff.mpr h
  simp [at?, put, this, lookup_putEntry]

theorem at?_put_of_ne (store : FileStore) {parts other : List Text} (h : other ≠ parts)
    (entry : FileEntry) : (store.put parts entry).at? other = store.at? other := by
  simp [at?, put, lookup_putEntry_of_ne h]

end FileStore

end Hypermark
