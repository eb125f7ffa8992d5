import Hypermark.Fault
import Hypermark.Text.Order

/-!
Options of a conversion.

`OptionRecord` holds the values as given; `check?` turns them into `Options`, whose fields have
their types and bounds.  A record is only ever made or changed through a check, so a record at hand
always stands for valid options.

* `check_eq_error_of_invalidParser`: an unknown parser is found before any other mistake.
-/

namespace Hypermark

/-- The parsers that options may name. -/
inductive Parser where
  | builtin
  | html5lib
  | lxml
deriving DecidableEq, Repr

namespace Parser

def name : Parser → Text
  | builtin => "html.parser".toList
  | html5lib => "html5lib".toList
  | lxml => "lxml".toList

def all : List Parser := [builtin, html5lib, lxml]

def ofName? (t : Text) : Option Parser := all.find? fun p => p.name == t

/-- Other names of the built-in parser, which options may not use. -/
def builtinAliases : List Text := ["html".toList, "strict".toList]

/-- The parser of a name or an alias. -/
def ofAlias? (t : Text) : Option Parser :=
  if builtinAliases.contains t then some builtin else ofName? t

end Parser

/-- Valid options. -/
structure Options where
  parser : Parser
  /-- Code fences carry the language of the code. -/
  detectLanguage : Bool
  /-- The most blank lines in a row outside fenced code. -/
  maxBlankLines : Nat
  /-- The least number of backticks of a fence. -/
  minFence : Nat
  one_le_maxBlankLines : 1 ≤ maxBlankLines := by decide
  three_le_minFence : 3 ≤ minFence := by decide

/-- The options that hold unless others are given. -/
def Options.standard : Options :=
  { parser := .builtin, detectLanguage := true, maxBlankLines := 2, minFence := 3 }

/-- The values of the options, as given. -/
structure OptionRecord where
  parser : Value
  detectLanguage : Value
  maxBlankLines : Value
  minFence : Value
deriving Repr

namespace OptionRecord

def standard : OptionRecord :=
  ⟨.text Parser.builtin.name, .bool true, .int 2, .int 3⟩

def names : List Text :=
  ["html_parser".toList, "detect_code_language".toList, "max_blank_lines".toList,
    "min_code_fence_length".toList]

/-- Sets one option; a name that is none changes nothing. -/
def set (r : OptionRecord) (name : Text) (value : Value) : OptionRecord :=
  if name = "html_parser".toList then { r with parser := value }
  else if name = "detect_code_language".toList then { r with detectLanguage := value }
  else if name = "max_blank_lines".toList then { r with maxBlankLines := value }
  else if name = "min_code_fence_length".toList then { r with minFence := value }
  else r

def setAll (r : OptionRecord) (fields : List (Text × Value)) : OptionRecord :=
  fields.foldl (fun r f => r.set f.1 f.2) r

/-! ## Checking -/

def checkParser (value : Value) : Except Fault Parser :=
  match value with
  | .text t =>
    match Parser.ofName? t with
    | some p => .ok p
    | none => .error (.invalidParser value)
  | _ => .error (.invalidParser value)

/-- A number that is at least `least`, rounded down. -/
def checkAtLeast (least : Nat) (tooSmall : Value → Fault) (value : Value) :
    Except Fault { n : Nat // least ≤ n } :=
  match value.floor? with
  | none => .error (.notNumber value)
  | some n => if h : least ≤ n.toNat then .ok ⟨n.toNat, h⟩ else .error (tooSmall value)

/-- The options that the values stand for; the parser is checked first, then the numbers. -/
def check (r : OptionRecord) : Except Fault Options := do
  let parser ← checkParser r.parser
  let blank ← checkAtLeast 1 .tooFewBlankLines r.maxBlankLines
  let fence ← checkAtLeast 3 .fenceTooShort r.minFence
  return ⟨parser, r.detectLanguage.truth, blank.1, fence.1, blank.2, fence.2⟩

/-! ## Making and changing -/

/-- A record that stands for valid options, unchanged. -/
def checked (r : OptionRecord) : Except Fault OptionRecord := r.check.map fun _ => r

/-- The record with the given fields, all others standard. -/
def make (fields : List (Text × Value)) : Except Fault OptionRecord :=
  match fields.find? fun f => !names.contains f.1 with
  | some f => .error (.unexpectedOption f.1)
  | none => (standard.setAll fields).checked

/-- The given names that are no options, in code point order. -/
def unknownNames (fields : List (Text × Value)) : List Text :=
  ((fields.map Prod.fst).filter (!names.contains ·)).mergeSort Text.precedes

/-- The record with the given fields changed. -/
def update (r : OptionRecord) (fields : List (Text × Value)) : Except Fault OptionRecord :=
  if (unknownNames fields).isEmpty then (r.setAll fields).checked
  else .error (.unknownOptions (unknownNames fields))

/-! ## Lemmas -/

theorem check_standard : standard.check = .ok Options.standard := by rfl

theorem check_eq_error_of_invalidParser {r : OptionRecord} {f : Fault}
    (h : checkParser r.parser = .error f) : r.check = .error f := by
  simp [check, h, bind, Except.bind]

end OptionRecord

end Hypermark
