import Hypermark.Document.Node

/-!
The attributes of an element, as they are looked up.

A name that occurs twice keeps its first place and takes the last value.  Some attributes hold a
list of words; their value is those words with one space between them.

* `lookup_put`: a value that was put is found.
* `map_fst_put`: putting a value adds a name only if it is new.
-/

namespace Hypermark.Attributes

variable {α : Type}

/-! ## Ordered maps -/

/-- Gives `key` a value: in its place if it is there, at the end otherwise. -/
def put (key : Text) (value : α) : List (Text × α) → List (Text × α)
  | [] => [(key, value)]
  | (k, v) :: rest => if k = key then (k, value) :: rest else (k, v) :: put key value rest

/-- Each name once, at its first place and with its last value. -/
def distinct (entries : List (Text × α)) : List (Text × α) :=
  entries.foldl (fun m e => put e.1 e.2 m) []

/-! ## Lists of words -/

/-- The attributes whose value is a list of words, for every tag or for one. -/
def wordLists : List (Text × Text) :=
  [("a", "rel"), ("a", "rev"), ("link", "rel"), ("link", "rev"), ("td", "headers"),
    ("th", "headers"), ("form", "accept-charset"), ("object", "archive"), ("area", "rel"),
    ("icon", "sizes"), ("iframe", "sandbox"), ("output", "for")].map
    fun e => (e.1.toList, e.2.toList)

def isWordList (tag name : Text) : Bool :=
  ["class".toList, "accesskey".toList, "dropzone".toList].contains name ||
    wordLists.contains (tag, name)

def settleValue (tag : Text) (a : Text × Option Text) : Text × Option Text :=
  (a.1, if isWordList tag a.1 then a.2.map Text.joinWords else a.2)

end Hypermark.Attributes

namespace Hypermark

namespace Node

/-! ## Views -/

/-- The attributes under their names as written. -/
def writtenAttributes : Node → Attributes
  | element name attrs _ =>
    Attributes.distinct (attrs.map (Attributes.settleValue (Text.lower name)))
  | _ => []

/-- The attributes under their names in lower case; an absent value is empty. -/
def attributes (n : Node) : List (Text × Text) :=
  Attributes.distinct (n.writtenAttributes.map fun a => (Text.lower a.1, a.2.getD []))

/-- The value of the attribute `name`, given in lower case. -/
def attribute? (n : Node) (name : Text) : Option Text := n.attributes.lookup name

/-- The value of the attribute `name`, empty if there is none. -/
def attributeOrEmpty (n : Node) (name : Text) : Text := (n.attribute? name).getD []

/-- The words of the `class` attribute. -/
def classes (n : Node) : List Text := Text.words (n.attributeOrEmpty "class".toList)

/-- The class `token` is set; case does not matter. -/
def hasClass (n : Node) (token : Text) : Bool :=
  n.classes.any fun c => Text.lower c == Text.lower token

end Node

/-! ## Lemmas -/

namespace Attributes

theorem lookup_put {α : Type} (key : Text) (value : α) (m : List (Text × α)) :
    (put key value m).lookup key = some value := by
  induction m with
  | nil => simp [put]
  | cons e m ih =>
    obtain ⟨k, v⟩ := e
    by_cases h : k = key
    · simp [put, h]
    · have hk : (key == k) = false := by simpa using Ne.symm h
      simp [put, h, List.lookup_cons, hk, ih]

theorem map_fst_put {α : Type} (key : Text) (value : α) (m : List (Text × α)) :
    (put key value m).map Prod.fst =
      if key ∈ m.map Prod.fst then m.map Prod.fst else m.map Prod.fst ++ [key] := by
  induction m with
  | nil => rfl
  | cons e m ih =>
    obtain ⟨k, v⟩ := e
    by_cases h : k = key
    · simp [put, h]
    · simp only [put, h, if_false, List.map_cons, ih, List.mem_cons, Ne.symm h, false_or]
      split <;> rfl

end Attributes

end Hypermark
